/-
  What the transparency log serves verifies.

  The log only grows and its rows are numbered in order, so the root over its first
  `n` leaves is fixed once there are `n` of them.  Every step of every request keeps
  that the cache and the stored cosignatures have roots of the log, whatever is
  appended between its reads; what it answers is a statement about the first leaves
  of the log, which stays true.
-/
import AcdpRegistry.Core.Log
import AcdpRegistry.Lib.Merkle
import AcdpRegistry.Lib.Rely

namespace AcdpRegistry

open Lib

/-! ## The log -/

variable {leaves : List LogLeafRow} {row : LogLeafRow} {n : ℕ}

section Log

variable {H : Type} {api : LogApi H}

/-- `root` is the root over the first `n` leaves. -/
def LogRoot (api : LogApi H) (leaves : List LogLeafRow) (n : ℕ) (root : String) : Prop :=
  n ≤ leaves.length ∧ ∃ hashes, (leaves.take n).mapM (fun r => api.decodeSha256Hex r.leafHash) = .ok hashes ∧
    root = api.encodeSha256Hex (api.merkleTreeHash hashes)

def DenseLeaves (leaves : List LogLeafRow) : Prop :=
  leaves.map (·.leafIndex) = List.range leaves.length

theorem take_of_grows {α : Type} {l l' : List α} (h : l <+: l') (hn : n ≤ l.length) :
    l'.take n = l.take n := by
  obtain ⟨rest, rfl⟩ := h
  exact List.take_append_of_le_length hn

theorem LogRoot.mono {leaves' : List LogLeafRow} {root : String}
    (h : LogRoot api leaves n root) (hgrows : leaves <+: leaves') : LogRoot api leaves' n root := by
  obtain ⟨hn, hashes, hhashes, rfl⟩ := h
  refine ⟨hn.trans hgrows.length_le, hashes, ?_, rfl⟩
  rw [take_of_grows hgrows hn]
  exact hhashes

theorem LogRoot.unique {root root' : String} (h : LogRoot api leaves n root)
    (h' : LogRoot api leaves n root') : root = root' := by
  obtain ⟨-, hashes, hhashes, rfl⟩ := h
  obtain ⟨-, hashes', hhashes', rfl⟩ := h'
  rw [hhashes] at hhashes'
  cases hhashes'
  rfl

section Dense

variable (h : DenseLeaves leaves)
include h

theorem DenseLeaves.index {i : ℕ} (hrow : leaves[i]? = some row) :
    row.leafIndex = i := by
  have hi := (List.getElem?_eq_some_iff.1 hrow).1
  have hmap : (leaves.map (·.leafIndex))[i]? = some row.leafIndex := by
    rw [List.getElem?_map, hrow]
    rfl
  rw [h, List.getElem?_range hi] at hmap
  exact (Option.some.inj hmap).symm

theorem DenseLeaves.getElem? (hrow : row ∈ leaves) :
    leaves[row.leafIndex]? = some row := by
  obtain ⟨i, hi⟩ := List.mem_iff_getElem?.1 hrow
  rw [h.index hi]
  exact hi

theorem DenseLeaves.lt_length (hrow : row ∈ leaves) :
    row.leafIndex < leaves.length :=
  (List.getElem?_eq_some_iff.1 (h.getElem? hrow)).1

theorem DenseLeaves.filter_lt (n : ℕ) :
    leaves.filter (·.leafIndex < n) = leaves.take n := by
  conv_lhs => rw [← List.take_append_drop n leaves, List.filter_append]
  have hbelow : (leaves.take n).filter (·.leafIndex < n) = leaves.take n := by
    refine List.filter_eq_self.2 fun row hrow => ?_
    obtain ⟨i, hi⟩ := List.mem_iff_getElem?.1 hrow
    rw [List.getElem?_take] at hi
    split at hi
    · next hin => simpa [h.index hi] using hin
    · cases hi
  have habove : (leaves.drop n).filter (·.leafIndex < n) = [] := by
    refine List.filter_eq_nil_iff.2 fun row hrow => ?_
    obtain ⟨i, hi⟩ := List.mem_iff_getElem?.1 hrow
    rw [List.getElem?_drop] at hi
    simp [h.index hi]
  rw [hbelow, habove, List.append_nil]

theorem DenseLeaves.sorted :
    leaves.Pairwise (·.leafIndex ≤ ·.leafIndex) := by
  have hrange : (leaves.map (·.leafIndex)).Pairwise (· ≤ ·) := by
    rw [h]
    exact List.pairwise_lt_range.imp Nat.le_of_lt
  exact List.pairwise_map.1 hrange

end Dense

theorem logLeafHashes_rows {db : Db} (h : DenseLeaves db.logLeaves) (n : ℕ) :
    (db.logLeaves.filter (·.leafIndex < n)).insertionSort (·.leafIndex ≤ ·.leafIndex) =
      db.logLeaves.take n := by
  rw [h.filter_lt]
  exact List.Pairwise.insertionSort_eq (h.sorted.sublist (List.take_sublist _ _))

theorem logLeafHashes_eq {db : Db} (h : DenseLeaves db.logLeaves) (hn : n ≤ db.logLeaves.length) :
    db.logLeafHashes api n = (db.logLeaves.take n).mapM fun r => api.decodeSha256Hex r.leafHash := by
  unfold Db.logLeafHashes
  simp only [logLeafHashes_rows h, List.length_take, Nat.min_eq_left hn, ne_eq, not_true_eq_false,
    if_false]

theorem logLeafHashes_ok {db : Db} (h : DenseLeaves db.logLeaves) {hashes : List H}
    (hok : db.logLeafHashes api n = .ok hashes) : n ≤ db.logLeaves.length ∧
      (db.logLeaves.take n).mapM (fun r => api.decodeSha256Hex r.leafHash) = .ok hashes := by
  have hn : n ≤ db.logLeaves.length := by
    unfold Db.logLeafHashes at hok
    simp only [logLeafHashes_rows h, List.length_take] at hok
    split at hok
    · cases hok
    · next hlen => omega
  rw [logLeafHashes_eq h hn] at hok
  exact ⟨hn, hok⟩

end Log

/-! ## The protocol crate -/

structure LogApi.Correct {H : Type} (api : LogApi H) : Prop where
  decode_encode : ∀ h, api.decodeSha256Hex (api.encodeSha256Hex h) = .ok h
  /-- There is a path for every leaf of the tree and for no other, and it verifies. -/
  inclusionPath : ∀ i hashes, (api.inclusionPath i hashes).isSome ↔ i < hashes.length
  inclusion : ∀ i hashes path leaf, api.inclusionPath i hashes = some path → hashes[i]? = some leaf →
    api.verifyInclusion leaf i hashes.length path (api.merkleTreeHash hashes) = true
  consistency : ∀ m hashes path, api.consistencyProof m hashes = some path → 0 < m → m ≤ hashes.length →
    api.verifyConsistency m hashes.length (api.merkleTreeHash (hashes.take m))
      (api.merkleTreeHash hashes) path = true
  /-- A verified cosignature is over the checkpoint it was verified against. -/
  witness : ∀ value doc checkpoint c, api.verifyWitnessCosignature value doc checkpoint = .ok c →
    c.logId = checkpoint.logId ∧ c.treeSize = checkpoint.treeSize ∧ c.rootHash = checkpoint.rootHash

theorem LogApi.Correct.decode_map {H : Type} {api : LogApi H} (h : api.Correct) (path : List H) :
    (path.map api.encodeSha256Hex).mapM api.decodeSha256Hex = .ok path := by
  rw [except_mapM_ok, List.forall₂_map_left_iff, List.forall₂_same]
  exact fun x _ => h.decode_encode x

/-! ## What every step keeps -/

section Requests

variable {H : Type} {srv : LogServer H} {s t : LogSystem}

/-- A checkpoint of this log: its root is the one over its number of leaves. -/
structure LogServer.Honest (srv : LogServer H) (leaves : List LogLeafRow) (cp : LogCheckpoint) :
    Prop where
  logId : cp.logId = srv.logId
  root : LogRoot srv.api leaves cp.treeSize cp.rootHash

/-- The log is dense; the cached root and every minted checkpoint are the log's. -/
structure LogSystem.Sound (srv : LogServer H) (s : LogSystem) : Prop where
  dense : DenseLeaves s.db.logLeaves
  cache : ∀ n root, s.rootCache = some (n, root) → LogRoot srv.api s.db.logLeaves n root
  minted : ∀ cp ∈ s.minted, srv.Honest s.db.logLeaves cp

/-- The log only grows, and what was minted stays minted. -/
structure LogSystem.Grows (s t : LogSystem) : Prop where
  leaves : s.db.logLeaves <+: t.db.logLeaves
  minted : s.minted <+: t.minted

theorem LogSystem.Grows.refl (s : LogSystem) : s.Grows s := ⟨List.prefix_rfl, List.prefix_rfl⟩

theorem LogSystem.Grows.trans (s t u : LogSystem) (h : s.Grows t) (h' : t.Grows u) : s.Grows u :=
  ⟨h.leaves.trans h'.leaves, h.minted.trans h'.minted⟩

theorem LogSystem.Grows.leaf (h : s.Grows t) {i : ℕ}
    (hrow : s.db.logLeaves[i]? = some row) : t.db.logLeaves[i]? = some row := by
  obtain ⟨rest, hrest⟩ := h.leaves
  rw [← hrest, List.getElem?_append_left (List.getElem?_eq_some_iff.1 hrow).1]
  exact hrow

/-- Beside the requests of a process the log is appended to, and other tables change in any way. -/
structure LogSystem.Appends (s t : LogSystem) : Prop where
  leaves : s.db.logLeaves <+: t.db.logLeaves
  dense : DenseLeaves t.db.logLeaves
  rootCache : t.rootCache = s.rootCache
  minted : t.minted = s.minted

theorem LogSystem.Appends.grows (h : s.Appends t) : s.Grows t :=
  ⟨h.leaves, h.minted ▸ List.prefix_rfl⟩

variable {cp : LogCheckpoint}

theorem LogServer.Honest.mono {leaves' : List LogLeafRow} (h : srv.Honest leaves cp)
    (hgrows : leaves <+: leaves') : srv.Honest leaves' cp :=
  ⟨h.logId, h.root.mono hgrows⟩

theorem LogSystem.Sound.appends (h : s.Sound srv) (ht : s.Appends t) :
    t.Sound srv := by
  refine ⟨ht.dense, fun n root hn => ?_, fun cp hcp => ?_⟩
  · exact (h.cache n root (ht.rootCache ▸ hn)).mono ht.leaves
  · exact (h.minted cp (ht.minted ▸ hcp)).mono ht.leaves

theorem LogSystem.cachedRoot_eq {root : String} (h : s.cachedRoot n = some root) :
    s.rootCache = some (n, root) := by
  unfold LogSystem.cachedRoot at h
  cases hc : s.rootCache with
  | none => simp [hc] at h
  | some p =>
    rw [hc, Option.filter_some] at h
    split at h
    · next hp =>
      simp only [Option.map_some, Option.some.injEq] at h
      exact congrArg some (Prod.ext (by simpa using hp) h)
    · cases h

theorem LogSystem.Sound.cachedRoot {root : String} (h : s.Sound srv)
    (hroot : s.cachedRoot n = some root) : LogRoot srv.api s.db.logLeaves n root :=
  h.cache n root (LogSystem.cachedRoot_eq hroot)

theorem LogSystem.Sound.cacheRoot {root : String} (h : s.Sound srv)
    (hroot : LogRoot srv.api s.db.logLeaves n root) :
    (s.cacheRoot n root).Sound srv ∧ s.Grows (s.cacheRoot n root) := by
  have hnew : ({ s with rootCache := some (n, root) } : LogSystem).Sound srv := by
    refine ⟨h.dense, fun m r hm => ?_, h.minted⟩
    cases hm
    exact hroot
  unfold LogSystem.cacheRoot
  split
  · split
    · exact ⟨h, .refl s⟩
    · exact ⟨hnew, List.prefix_rfl, List.prefix_rfl⟩
  · exact ⟨hnew, List.prefix_rfl, List.prefix_rfl⟩

theorem LogSystem.Sound.mint (h : s.Sound srv)
    (hcp : srv.Honest s.db.logLeaves cp) : (s.mint cp).Sound srv ∧ s.Grows (s.mint cp) := by
  refine ⟨⟨h.dense, h.cache, fun cp' hcp' => ?_⟩, List.prefix_rfl, List.prefix_append _ _⟩
  rcases List.mem_append.1 hcp' with hold | hnew
  · exact h.minted cp' hold
  · rw [List.mem_singleton.1 hnew]
    exact hcp

/-! ## Roots and checkpoints -/

/-- A step of a request is safe, and its value satisfies `Q`. -/
abbrev LogSafe (srv : LogServer H) {ε α : Type} (Q : LogSystem → α → Prop)
    (p : Proc LogSystem ε α) (s : LogSystem) : Prop :=
  p.Safe (LogSystem.Sound srv) LogSystem.Grows LogSystem.Grows Q s

theorem LogSafe.read {ε α β : Type} {Q : LogSystem → β → Prop} {g : LogSystem → α}
    {f : α → Proc LogSystem ε β} (h : ∀ t, s.Grows t → t.Sound srv → LogSafe srv Q (f (g t)) t) :
    LogSafe srv Q (Proc.read g >>= f) s :=
  Proc.safe_read_bind .refl h

theorem LogSafe.seq {ε α β : Type} {Q : LogSystem → β → Prop} {Q' : LogSystem → α → Prop}
    {p : Proc LogSystem ε α} {f : α → Proc LogSystem ε β} (hp : LogSafe srv Q' p s)
    (hf : ∀ t a, s.Grows t → Q' t a → LogSafe srv Q (f a) t) : LogSafe srv Q (p >>= f) s :=
  Proc.safe_seq .refl LogSystem.Grows.trans (fun _ _ h => h) hp hf

/-- The hashes of the first `n` leaves. -/
structure FirstHashes (srv : LogServer H) (s : LogSystem) (n : ℕ) (hashes : List H) : Prop where
  le : n ≤ s.db.logLeaves.length
  eq : (s.db.logLeaves.take n).mapM (fun r => srv.api.decodeSha256Hex r.leafHash) = .ok hashes

section FirstHashes

variable {hashes : List H} (h : FirstHashes srv s n hashes)

include h

theorem FirstHashes.root :
    LogRoot srv.api s.db.logLeaves n (srv.api.encodeSha256Hex (srv.api.merkleTreeHash hashes)) :=
  ⟨h.le, hashes, h.eq, rfl⟩

theorem FirstHashes.mono (hgrows : s.Grows t) : FirstHashes srv t n hashes := by
  refine ⟨h.le.trans hgrows.leaves.length_le, ?_⟩
  rw [take_of_grows hgrows.leaves h.le]
  exact h.eq

theorem FirstHashes.length : hashes.length = n := by
  have hlen := (except_mapM_ok.1 h.eq).length_eq
  rw [List.length_take, Nat.min_eq_left h.le] at hlen
  exact hlen.symm

theorem FirstHashes.hash {i : ℕ} (hi : i < n) (hrow : s.db.logLeaves[i]? = some row) :
    ∃ leaf, srv.api.decodeSha256Hex row.leafHash = .ok leaf ∧ hashes[i]? = some leaf := by
  have hat : (s.db.logLeaves.take n)[i]? = some row := by
    rw [List.getElem?_take_of_lt hi]
    exact hrow
  obtain ⟨leaf, hleaf, hdecode⟩ := forall₂_getElem? (except_mapM_ok.1 h.eq) hat
  exact ⟨leaf, hdecode, hleaf⟩

theorem FirstHashes.take {m : ℕ} (hm : m ≤ n) : FirstHashes srv s m (hashes.take m) := by
  refine ⟨hm.trans h.le, except_mapM_ok.2 ?_⟩
  have htake := List.forall₂_take m (except_mapM_ok.1 h.eq)
  rwa [List.take_take, Nat.min_eq_left hm] at htake

end FirstHashes

theorem readHashes_safe (n : ℕ) :
    LogSafe srv (fun t hashes => FirstHashes srv t n hashes) (srv.readHashes n) s := by
  refine LogSafe.read fun t _ ht => Proc.safe_lift fun hashes hok => ?_
  obtain ⟨hle, heq⟩ := logLeafHashes_ok ht.dense (except_mapError_ok.1 hok)
  exact ⟨hle, heq⟩

theorem rootFor_safe {hashes : List H} (current : ℕ) (h : FirstHashes srv s n hashes) :
    LogSafe srv (fun t root => LogRoot srv.api t.db.logLeaves n root) (srv.rootFor n hashes current) s := by
  refine LogSafe.read fun t hst ht => ?_
  cases hc : t.cachedRoot n with
  | some cached => exact Proc.safe_ret (ht.cachedRoot hc)
  | none =>
    simp only
    split
    · refine Proc.safe_act fun u htu hu => ?_
      have hroot := ((h.mono hst).mono htu).root
      obtain ⟨hsound, hgrows⟩ := hu.cacheRoot hroot
      exact ⟨hsound, hgrows, Proc.safe_ret (hroot.mono hgrows.leaves)⟩
    · exact Proc.safe_ret (h.mono hst).root

theorem headRoot_safe (n : ℕ) :
    LogSafe srv (fun t root => LogRoot srv.api t.db.logLeaves n root) (srv.headRoot n) s := by
  refine LogSafe.read fun t hst ht => ?_
  cases hc : t.cachedRoot n with
  | some cached => exact Proc.safe_ret (ht.cachedRoot hc)
  | none =>
    exact LogSafe.seq (readHashes_safe n) fun u hashes _ h =>
      rootFor_safe n h

structure LogServer.Minted (srv : LogServer H) (s : LogSystem) (cp : LogCheckpoint) : Prop where
  honest : srv.Honest s.db.logLeaves cp
  mem : cp ∈ s.minted

theorem LogServer.Minted.mono (h : srv.Minted s cp) (hgrows : s.Grows t) :
    srv.Minted t cp :=
  ⟨h.honest.mono hgrows.leaves, hgrows.minted.subset h.mem⟩

theorem mintCheckpoint_safe {ε : Type} {mapErr : AcdpError → ε} {root : String} (now : ℤ)
    (hroot : LogRoot srv.api s.db.logLeaves n root) :
    LogSafe srv (fun t cp => srv.Minted t cp ∧ cp.treeSize = n ∧ cp.rootHash = root)
      (srv.mintCheckpoint mapErr n root now) s := by
  unfold LogServer.mintCheckpoint
  split
  · trivial
  · next signature _ =>
    refine Proc.safe_act fun t hst ht => ?_
    have hcp : srv.Honest t.db.logLeaves ⟨srv.logId, n, root, now, signature⟩ :=
      ⟨rfl, hroot.mono hst.leaves⟩
    obtain ⟨hsound, hgrows⟩ := ht.mint hcp
    exact ⟨hsound, hgrows, Proc.safe_ret ⟨⟨hcp, by simp [LogSystem.mint]⟩, rfl, rfl⟩⟩

/-- Each of these was stored for exactly this checkpoint. -/
def CosignedFor (s : LogSystem) (cp : LogCheckpoint) (signatures : List Json) : Prop :=
  ∀ v ∈ signatures, ∃ row ∈ s.cosignatures, row.cosignature = v ∧ row.logId = cp.logId ∧
    row.treeSize = cp.treeSize ∧ row.rootHash = cp.rootHash

theorem witnessSignatures_safe {α : Type} {Q : LogSystem → α → Prop}
    {f : List Json → α} (hcp : cp.logId = srv.logId)
    (h : ∀ t signatures, s.Grows t → CosignedFor t cp signatures → Q t (f signatures)) :
    LogSafe srv Q (srv.witnessSignaturesFor cp >>= fun x => pure (f x)) s := by
  refine LogSafe.read fun t hst ht => Proc.safe_ret (h t _ hst fun v hv => ?_)
  obtain ⟨row, hrow, rfl⟩ := List.mem_map.1 hv
  rw [List.mem_insertionSort] at hrow
  obtain ⟨hmem, hkey⟩ := List.mem_filter.1 hrow
  simp only [decide_eq_true_eq] at hkey
  exact ⟨row, hmem, rfl, hkey.1.trans hcp.symm, hkey.2.1, hkey.2.2⟩

/-! ## Endpoints -/

structure CheckpointServed (srv : LogServer H) (s : LogSystem) (cp : LogCheckpoint)
    (signatures : List Json) : Prop where
  minted : srv.Minted s cp
  cosigned : CosignedFor s cp signatures

theorem logCheckpoint_safe (now : ℤ) :
    LogSafe srv (fun t r => CheckpointServed srv t r.1 r.2) (srv.logCheckpoint now) s := by
  refine LogSafe.read fun t _ _ => ?_
  refine LogSafe.seq (headRoot_safe _) fun u root _ hroot => ?_
  refine LogSafe.seq (mintCheckpoint_safe now hroot)
    fun v cp _ hcp => ?_
  exact witnessSignatures_safe hcp.1.honest.logId fun w signatures hvw hsig => ⟨hcp.1.mono hvw, hsig⟩

structure LogServer.ProofQuery.Names (q : LogServer.ProofQuery) (row : LogLeafRow) : Prop where
  ctxId : ∀ c, q.ctxId = some c → row.ctxId = c
  leafIndex : ∀ raw, q.leafIndex = some raw →
    LogServer.parseParameter "leaf_index" raw = .ok row.leafIndex

/-- From its texts, the proof verifies for the leaf that the query names against the checkpoint in it. -/
structure InclusionServed (srv : LogServer H) (s : LogSystem) (q : LogServer.ProofQuery)
    (inc : LogInclusion) (signatures : List Json) : Prop where
  checkpoint : CheckpointServed srv s inc.logCheckpoint signatures
  logId : inc.logId = srv.logId
  size : inc.logCheckpoint.treeSize = inc.treeSize
  verifies : ∃ row leaf path root, s.db.logLeaves[inc.leafIndex]? = some row ∧ q.Names row ∧
    srv.api.decodeSha256Hex row.leafHash = .ok leaf ∧
    inc.inclusionPath.mapM srv.api.decodeSha256Hex = .ok path ∧
    srv.api.decodeSha256Hex inc.logCheckpoint.rootHash = .ok root ∧
    srv.api.verifyInclusion leaf inc.leafIndex inc.treeSize path root = true

/-- A consistency proof as it is served: from its texts, it verifies between the roots of its two
    sizes. -/
structure ConsistencyServed (srv : LogServer H) (s : LogSystem) (proof : LogConsistencyProof)
    (signatures : List Json) : Prop where
  checkpoint : CheckpointServed srv s proof.logCheckpoint signatures
  logId : proof.logId = srv.logId
  size : proof.logCheckpoint.treeSize = proof.secondTreeSize
  verifies : ∃ firstRoot first second path,
    LogRoot srv.api s.db.logLeaves proof.firstTreeSize firstRoot ∧
    srv.api.decodeSha256Hex firstRoot = .ok first ∧
    srv.api.decodeSha256Hex proof.logCheckpoint.rootHash = .ok second ∧
    proof.consistencyPath.mapM srv.api.decodeSha256Hex = .ok path ∧
    srv.api.verifyConsistency proof.firstTreeSize proof.secondTreeSize first second path = true

theorem requesterCanRetrieve_safe (caller : LogServer.Caller) (ctxId : String) :
    LogSafe srv (fun _ _ => True) (srv.requesterCanRetrieve caller ctxId) s := by
  unfold LogServer.requesterCanRetrieve
  split
  · exact Proc.safe_ret trivial
  · refine LogSafe.read fun t _ _ => ?_
    split
    · exact Proc.safe_ret trivial
    · exact Proc.safe_ret trivial
    · exact LogSafe.read fun u _ _ => Proc.safe_ret trivial

theorem lookupLeaf_safe (caller : LogServer.Caller) (q : LogServer.ProofQuery) (current : ℕ) :
    LogSafe srv (fun t found => t.db.logLeaves[found.1.leafIndex]? = some found.1 ∧ q.Names found.1)
      (srv.lookupLeaf caller q current) s := by
  unfold LogServer.lookupLeaf
  split
  · trivial
  · next ctxId hctx hindex =>
    refine LogSafe.seq (requesterCanRetrieve_safe caller ctxId)
      fun t visible _ _ => ?_
    split
    · trivial
    · refine LogSafe.read fun u _ hu => ?_
      cases hrow : u.db.logLeafByCtx ctxId with
      | none => trivial
      | some row =>
        have hctxId : row.ctxId = ctxId := by simpa using List.find?_some hrow
        refine Proc.safe_ret ⟨hu.dense.getElem? (List.mem_of_find?_eq_some hrow), fun c hc => ?_,
          fun raw hraw => ?_⟩
        · rw [hctx] at hc
          cases hc
          exact hctxId
        · rw [hindex] at hraw
          cases hraw
  · next raw hctx hindex =>
    refine Proc.safe_lift_bind fun leafIndex hparse => LogSafe.read fun t _ ht => ?_
    cases hrow : t.db.logLeafByIndex leafIndex with
    | none => trivial
    | some row =>
      have hidx : row.leafIndex = leafIndex := by simpa using List.find?_some hrow
      refine LogSafe.seq (requesterCanRetrieve_safe caller _)
        fun u echo htu _ => Proc.safe_ret ⟨?_, fun c hc => ?_, fun raw' hraw => ?_⟩
      · exact htu.leaf (ht.dense.getElem? (List.mem_of_find?_eq_some hrow))
      · rw [hctx] at hc
        cases hc
      · rw [hindex] at hraw
        cases hraw
        rw [hparse, hidx]
  · trivial

theorem proveInclusion_safe (hapi : srv.api.Correct) {q : LogServer.ProofQuery} {now : ℤ}
    {current : ℕ} {echo : Bool} (hrow : s.db.logLeaves[row.leafIndex]? = some row)
    (hnames : q.Names row) :
    LogSafe srv (fun t r => InclusionServed srv t q r.1 r.2)
      (srv.proveInclusion q now current row echo) s := by
  refine Proc.safe_lift_bind fun n hn => ?_
  refine LogSafe.seq (readHashes_safe n) fun t hashes hst hhashes => ?_
  dsimp only
  cases hpath : srv.api.inclusionPath row.leafIndex hashes with
  | none => trivial
  | some path =>
    refine LogSafe.seq (rootFor_safe current hhashes)
      fun u root htu hroot => ?_
    refine LogSafe.seq (mintCheckpoint_safe now hroot)
      fun v cp huv hcp => Proc.safe_lift_bind fun leaf _ => ?_
    refine witnessSignatures_safe hcp.1.honest.logId fun w signatures hvw hsig => ?_
    obtain ⟨hcp, hsize, hcproot⟩ := hcp
    -- the leaf is below the size, and its hash is the one that the path is for
    have hidx : row.leafIndex < n := by
      rw [← hhashes.length]
      exact (hapi.inclusionPath _ _).1 (hpath ▸ rfl)
    obtain ⟨leafHash, hdecode, hleaf⟩ := hhashes.hash hidx (hst.leaf hrow)
    have htw : t.Grows w := .trans _ _ _ htu (.trans _ _ _ huv hvw)
    refine ⟨⟨hcp.mono hvw, hsig⟩, rfl, hsize, row, leafHash, path, srv.api.merkleTreeHash hashes,
      htw.leaf (hst.leaf hrow), hnames, hdecode, hapi.decode_map path, ?_, ?_⟩
    · rw [hcproot, hroot.unique (hhashes.mono htu).root]
      exact hapi.decode_encode _
    · have := hapi.inclusion _ _ _ _ hpath hleaf
      rwa [hhashes.length] at this

theorem inclusionProof_safe (hapi : srv.api.Correct) (caller : LogServer.Caller)
    (q : LogServer.ProofQuery) (now : ℤ) :
    LogSafe srv (fun t r => InclusionServed srv t q r.1 r.2) (srv.inclusionProof caller q now) s := by
  refine LogSafe.read fun t _ _ => ?_
  exact LogSafe.seq (lookupLeaf_safe caller q _)
    fun u found _ hfound => proveInclusion_safe hapi hfound.1 hfound.2

theorem consistencyProof_safe (hapi : srv.api.Correct) (q : LogServer.ProofQuery) (now : ℤ) :
    LogSafe srv (fun t r => ConsistencyServed srv t r.1 r.2) (srv.consistencyProof q now) s := by
  unfold LogServer.consistencyProof
  split
  · refine Proc.safe_lift_bind fun first _ => Proc.safe_lift_bind fun second _ => ?_
    refine LogSafe.read fun t _ _ => Proc.safe_lift_bind fun _ hrange => ?_
    have hrange := ensure_ok.1 hrange
    simp only [Bool.not_eq_eq_eq_not, Bool.not_true, Bool.or_eq_false_iff,
      decide_eq_false_iff_not] at hrange
    refine LogSafe.seq (readHashes_safe second)
      fun u hashes _ hhashes => ?_
    cases hpath : srv.api.consistencyProof first hashes with
    | none => trivial
    | some path =>
      refine LogSafe.seq (rootFor_safe _ hhashes)
        fun v root huv hroot => ?_
      refine LogSafe.seq (mintCheckpoint_safe now hroot)
        fun w cp hvw hcp => ?_
      refine witnessSignatures_safe hcp.1.honest.logId fun x signatures hwx hsig => ?_
      obtain ⟨hcp, hsize, hcproot⟩ := hcp
      have hux : u.Grows x := .trans _ _ _ huv (.trans _ _ _ hvw hwx)
      have hfirst : first ≤ second := by omega
      refine ⟨⟨hcp.mono hwx, hsig⟩, rfl, hsize, _, srv.api.merkleTreeHash (hashes.take first),
        srv.api.merkleTreeHash hashes, path, ((hhashes.take hfirst).mono hux).root,
        hapi.decode_encode _, ?_, hapi.decode_map path, ?_⟩
      · rw [hcproot, hroot.unique (hhashes.mono huv).root]
        exact hapi.decode_encode _
      · have hver := hapi.consistency _ _ _ hpath (by omega) (by rw [hhashes.length]; omega)
        rwa [hhashes.length] at hver
  · trivial

/-- A stored cosignature verified against a checkpoint of this log, and its row has that log, size and
    root. -/
structure CosignatureStored (srv : LogServer H) (s : LogSystem) (didDoc cosignature : Json) : Prop where
  row : ∃ row ∈ s.cosignatures, row.cosignature = cosignature ∧ row.logId = srv.logId ∧
    LogRoot srv.api s.db.logLeaves row.treeSize row.rootHash ∧
    ∃ cp c, srv.api.verifyWitnessCosignature cosignature didDoc cp = .ok c ∧
      cp.treeSize = row.treeSize ∧ cp.rootHash = row.rootHash

theorem reconstructCheckpoint_safe (n : ℕ) (now : ℤ) :
    LogSafe srv (fun t cp => ∀ c, cp = some c → srv.Honest t.db.logLeaves c)
      (srv.reconstructCheckpoint n now) s := by
  refine LogSafe.read fun t _ _ => ?_
  split
  · exact Proc.safe_ret fun c hc => by cases hc
  · refine LogSafe.read fun u _ hu => Proc.safe_lift_bind fun hashes hok => ?_
    obtain ⟨hle, heq⟩ := logLeafHashes_ok hu.dense hok
    refine LogSafe.seq (mintCheckpoint_safe now ⟨hle, hashes, heq, rfl⟩)
      fun v cp _ hcp => Proc.safe_ret fun c hc => ?_
    cases hc
    exact hcp.1.honest

theorem verifyCosignature_safe (didDoc cosignature : Json) (now : ℤ) :
    LogSafe srv (fun t c => ∃ cp, srv.Honest t.db.logLeaves cp ∧
        srv.api.verifyWitnessCosignature cosignature didDoc cp = .ok c)
      (srv.verifyCosignature didDoc cosignature now) s := by
  refine Proc.safe_lift_bind fun peek _ => Proc.safe_lift_bind fun _ _ => ?_
  refine LogSafe.seq (reconstructCheckpoint_safe peek.treeSize now)
    fun t cp _ hcp => ?_
  cases cp with
  | none => trivial
  | some cp => exact Proc.safe_lift fun c hc => ⟨cp, hcp cp rfl, hc⟩

theorem verifyAndStore_safe (hapi : srv.api.Correct) (didDoc cosignature : Json) (now : ℤ) :
    LogSafe srv (fun t stored => stored = true → CosignatureStored srv t didDoc cosignature)
      (srv.verifyAndStore didDoc cosignature now) s := by
  have hverify : LogSafe srv (fun t r => ∀ c, r = .ok c → ∃ cp, srv.Honest t.db.logLeaves cp ∧
      srv.api.verifyWitnessCosignature cosignature didDoc cp = .ok c)
      ((srv.verifyCosignature didDoc cosignature now).attempt : LogProc _) s :=
    Proc.safe_attempt (Proc.safe_mono (verifyCosignature_safe didDoc cosignature now)
      fun t r hr c hc => by
        cases hc
        exact hr) fun t e c hc => by cases hc
  refine LogSafe.seq hverify fun t r _ hr => ?_
  cases r with
  | error e => exact Proc.safe_ret fun h => by cases h
  | ok c =>
    obtain ⟨cp, hcp, hver⟩ := hr c rfl
    obtain ⟨hlog, hsize, hroot⟩ := hapi.witness _ _ _ _ hver
    refine Proc.safe_act fun u htu hu => ⟨⟨hu.dense, hu.cache, hu.minted⟩,
      ⟨List.prefix_rfl, List.prefix_rfl⟩, Proc.safe_ret fun _ =>
        ⟨_, List.mem_append_right _ (List.mem_singleton_self _), rfl, hlog.trans hcp.logId, ?_, cp, c, hver,
          hsize.symm, hroot.symm⟩⟩
    show LogRoot srv.api u.db.logLeaves c.treeSize c.rootHash
    rw [hsize, hroot]
    exact hcp.root.mono htu.leaves

/-! ## Requests -/

/-- What an answer to a request says of the log. -/
def LogServer.Serves (srv : LogServer H) (s : LogSystem) :
    LogServer.Request → LogServer.Answer → Prop
  | .checkpoint _, .checkpoint cp signatures => CheckpointServed srv s cp signatures
  | .proof _ q _, .inclusion inc signatures => InclusionServed srv s q inc signatures
  | .proof _ _ _, .consistency proof signatures => ConsistencyServed srv s proof signatures
  | .cosignature didDoc cosignature _, .stored stored =>
    stored = true → CosignatureStored srv s didDoc cosignature
  | _, _ => False

theorem logProof_safe (hapi : srv.api.Correct) (caller : Except RegistryError LogServer.Caller)
    (q : LogServer.ProofQuery) (now : ℤ) :
    LogSafe srv (fun t a => srv.Serves t (.proof caller q now) a) (srv.logProof caller q now) s := by
  unfold LogServer.logProof
  dsimp only
  split
  · trivial
  · split
    · exact LogSafe.seq (consistencyProof_safe hapi q now)
        fun t r _ hr => Proc.safe_ret hr
    · split
      · trivial
      · exact Proc.safe_lift_bind fun c _ => LogSafe.seq
          (inclusionProof_safe hapi c q now) fun t r _ hr => Proc.safe_ret hr

theorem serve_safe (hapi : srv.api.Correct) (request : LogServer.Request) :
    LogSafe srv (fun t a => srv.Serves t request a) (srv.serve request) s := by
  cases request with
  | checkpoint now =>
    exact LogSafe.seq (logCheckpoint_safe now)
      fun t r _ hr => Proc.safe_ret hr
  | proof caller q now => exact logProof_safe hapi caller q now
  | cosignature didDoc cosignature now =>
    exact LogSafe.seq (verifyAndStore_safe hapi didDoc cosignature now)
      fun t r _ hr => Proc.safe_ret hr

/-- A process that serves these requests, from a start on this log. -/
def LogServer.pool {ι : Type} (srv : LogServer H) (requests : ι → LogServer.Request) (s : LogSystem) :
    Pool ι LogSystem RegistryError LogServer.Answer :=
  ⟨s, fun i => srv.serve (requests i)⟩

/-- **The transparency log's answers verify.**  In every interleaving of requests and appends: the
    cache and every minted checkpoint have the root of the log at their size, and every answer holds of
    the log, which has only grown since: inclusion and consistency proofs verify, and attached witness
    signatures are of the served log, size and root. -/
theorem log_answers_verify {ι : Type} [DecidableEq ι] (hapi : srv.api.Correct)
    {requests : ι → LogServer.Request} {s : LogSystem} (hdense : DenseLeaves s.db.logLeaves)
    (hcache : s.rootCache = none) (hminted : s.minted = []) {moves : ℕ → Move ι LogSystem}
    (hmoves : ∀ n f, moves n = .env f → ((srv.pool requests s).run moves n).state.Appends
      (f ((srv.pool requests s).run moves n).state)) (n : ℕ) :
    let at_ := fun m => ((srv.pool requests s).run moves m).state
    (∀ size root, (at_ n).cachedRoot size = some root →
      LogRoot srv.api (at_ n).db.logLeaves size root) ∧
    (∀ cp ∈ (at_ n).minted, srv.Honest (at_ n).db.logLeaves cp) ∧
    (∀ cp ∈ (at_ n).minted, ∀ cp' ∈ (at_ n).minted, cp.treeSize = cp'.treeSize →
      cp.rootHash = cp'.rootHash) ∧
    (∀ i a, ((srv.pool requests s).run moves n).procs i = .ret a → ∃ m ≤ n,
      (at_ m).Grows (at_ n) ∧ srv.Serves (at_ m) (requests i) a) := by
  intro at_
  have h0 : s.Sound srv := by
    refine ⟨hdense, fun n root h => ?_, fun cp h => ?_⟩
    · rw [hcache] at h
      cases h
    · rw [hminted] at h
      cases h
  have henv : ∀ m f, moves m = .env f → (at_ m).Sound srv →
      (f (at_ m)).Sound srv ∧ ∀ _ : ι, (at_ m).Grows (f (at_ m)) := fun m f hf hI =>
    ⟨hI.appends (hmoves m f hf), fun _ => (hmoves m f hf).grows⟩
  have hsafe : ∀ i, LogSafe srv (fun t a => srv.Serves t (requests i) a)
      ((srv.pool requests s).procs i) s := fun i => serve_safe hapi (requests i)
  obtain ⟨hI, hprocs⟩ := Pool.run_safe (fun _ => .refl) (fun _ => LogSystem.Grows.trans)
    (fun _ _ _ _ _ h => h) h0 hsafe henv n
  refine ⟨fun size root => hI.cachedRoot, hI.minted, fun cp hcp cp' hcp' hsize => ?_, fun i a ha => ?_⟩
  · exact (hI.minted cp hcp).root.unique (hsize ▸ (hI.minted cp' hcp').root)
  · obtain ⟨m, hm, hgrows, hserves⟩ := hprocs i
    rw [ha] at hserves
    exact ⟨m, hm, hgrows, hserves⟩

end Requests

/-! ## A log over texts -/

namespace Sample

def logScheme : Merkle.Scheme String where
  empty := "sha256:"
  node := fun l r => s!"({l} {r})"

def cosignature : Json → Except AcdpError LogCosignature
  | .array [.string logId, .number n, .string root, .string witness] => .ok ⟨logId, n.toNat, root, witness⟩
  | _ => .error (.invalidWitnessCosignature "malformed cosignature")

def logApi : LogApi String where
  merkleTreeHash := Merkle.treeHash logScheme
  inclusionPath := fun i hashes =>
    if i < hashes.length then some (Merkle.auditPath logScheme hashes i).reverse else none
  consistencyProof := fun m hashes =>
    if 0 < m ∧ m ≤ hashes.length then some (Merkle.subproof logScheme m hashes true).reverse else none
  verifyInclusion := fun leaf i n path root =>
    Merkle.rootFromPath logScheme leaf i n path.reverse = some root
  verifyConsistency := fun m n first second path =>
    Merkle.rootsFromProof logScheme first m n true path.reverse = some (first, second)
  encodeSha256Hex := id
  decodeSha256Hex := .ok
  signCheckpoint := fun logId n root _ => .ok s!"{logId} {n} {root}"
  isCtxId := fun _ => true
  leaf := fun row => .ok (.string row.leafJson)
  cosignatureFromValue := cosignature
  verifyWitnessCosignature := fun value _ cp => do
    let c ← cosignature value
    ensure (c.logId = cp.logId && c.treeSize = cp.treeSize && c.rootHash = cp.rootHash)
      (.invalidWitnessCosignature "another checkpoint")
    return c

theorem logApi_correct : logApi.Correct where
  decode_encode := fun _ => rfl
  inclusionPath := by
    intro i hashes
    simp only [logApi]
    split <;> simp_all
  inclusion := by
    intro i hashes path leaf hpath hleaf
    simp only [logApi] at hpath ⊢
    split at hpath
    · cases hpath
      rw [List.reverse_reverse, decide_eq_true_eq]
      exact Merkle.rootFromPath_auditPath _ _ _ hleaf
    · cases hpath
  consistency := by
    intro m hashes path hpath hm hle
    simp only [logApi] at hpath ⊢
    rw [if_pos ⟨hm, hle⟩] at hpath
    cases hpath
    rw [List.reverse_reverse, decide_eq_true_eq]
    exact Merkle.rootsFromProof_subproof _ _ hm hle fun _ => rfl
  witness := by
    intro value doc cp c hc
    obtain ⟨c', -, hc⟩ := except_bind_ok.1 hc
    obtain ⟨_, hsame, hc⟩ := except_bind_ok.1 hc
    cases hc
    simpa [and_assoc] using ensure_ok.1 hsame

def logServer : LogServer String where
  api := logApi
  logId := "log1"
  publicArmOpen := true

def leafRow (i : ℕ) : LogLeafRow := ⟨i, s!"ctx{i}", "leaf", s!"h{i}"⟩

def append (row : LogLeafRow) (s : LogSystem) : LogSystem :=
  { s with db := { s.db with logLeaves := s.db.logLeaves ++ [row] } }

/-- Two leaves are appended, the second while a checkpoint is served; then an auditor asks for the
    first one's proof. -/
def logRequests : Bool → LogServer.Request
  | false => .checkpoint 0
  | true => .proof (.ok {}) { leafIndex := some "0" } 1

def logMoves (n : ℕ) : Move Bool LogSystem :=
  if n = 0 then .env (append (leafRow 0))
  else if n = 3 then .env (append (leafRow 1))
  else .proc (9 ≤ n)

end Sample

theorem Sample.append_appends {s : LogSystem} (h : DenseLeaves s.db.logLeaves)
    (hrow : row.leafIndex = s.db.logLeaves.length) : s.Appends (append row s) where
  leaves := List.prefix_append _ _
  dense := by
    rw [DenseLeaves, append, List.map_append, h, List.length_append, List.length_singleton,
      List.range_succ, List.map_singleton, hrow]
  rootCache := rfl
  minted := rfl

/-- The auditor's proof is over both leaves, and verifies. -/
theorem log_answers_verify_sample :
    ∃ inc, ((Sample.logServer.pool Sample.logRequests {}).run Sample.logMoves 18).procs true =
        .ret (.inclusion inc []) ∧ inc.treeSize = 2 ∧
      ∃ m ≤ 18, InclusionServed Sample.logServer
        ((Sample.logServer.pool Sample.logRequests {}).run Sample.logMoves m).state
        { leafIndex := some "0" } inc [] := by
  have hall := @log_answers_verify String Sample.logServer Bool _ Sample.logApi_correct
    Sample.logRequests {} rfl rfl rfl Sample.logMoves ?_ 18
  · obtain ⟨m, hm, -, hserves⟩ := hall.2.2.2 true _ rfl
    exact ⟨_, rfl, rfl, m, hm, hserves⟩
  · intro n f hf
    unfold Sample.logMoves at hf
    split_ifs at hf with h0 h3
    · cases hf
      subst h0
      exact Sample.append_appends rfl rfl
    · cases hf
      subst h3
      exact Sample.append_appends rfl rfl

end AcdpRegistry
