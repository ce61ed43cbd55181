/-
  When a leaf that is in the log gets its inclusion proof.

  `inclusion_proof_response` reads the tree size first and looks the leaf up after
  that.  A publish that commits between the two reads appends a leaf that is found
  but lies beyond the size, and the request ends with an internal error.
-/
import AcdpRegistry.Core.LogServe

namespace AcdpRegistry

open Lib

variable {H : Type} {srv : LogServer H} {views : ℕ → LogSystem}

/-- What the actions of one request see, one after the other: a dense log that is only appended to. -/
structure GrowingLog (views : ℕ → LogSystem) : Prop where
  dense : ∀ k, DenseLeaves (views k).db.logLeaves
  grows : ∀ k, (views k).db.logLeaves <+: (views (k + 1)).db.logLeaves

theorem GrowingLog.shift (h : GrowingLog views) (j : ℕ) : GrowingLog fun k => views (k + j) :=
  ⟨fun k => h.dense (k + j), fun k => by simpa only [Nat.add_right_comm] using h.grows (k + j)⟩

theorem GrowingLog.le (h : GrowingLog views) (k : ℕ) :
    (views 0).db.logLeaves <+: (views k).db.logLeaves := by
  induction k with
  | zero => exact List.prefix_rfl
  | succ k ih => exact ih.trans (h.grows k)

/-- Store calls and the signer succeed: stored hashes and leaves decode, checkpoints are signed. -/
structure CallsSucceed (srv : LogServer H) (views : ℕ → LogSystem) : Prop where
  hash : ∀ k, ∀ row ∈ (views k).db.logLeaves, ∃ h, srv.api.decodeSha256Hex row.leafHash = .ok h
  leaf : ∀ k, ∀ row ∈ (views k).db.logLeaves, ∃ json, srv.api.leaf row = .ok json
  sign : ∀ n root now, ∃ signature, srv.api.signCheckpoint srv.logId n root now = .ok signature

theorem CallsSucceed.shift (h : CallsSucceed srv views) (j : ℕ) :
    CallsSucceed srv fun k => views (k + j) :=
  ⟨fun k => h.hash (k + j), fun k => h.leaf (k + j), h.sign⟩

/-! ## The leaf -/

variable {q : LogServer.ProofQuery}

theorem lookupLeaf_runOn {caller : LogServer.Caller} {current : ℕ} {row : LogLeafRow}
    {echo : Bool} (h : (srv.lookupLeaf caller q current).runOn views = .ok (row, echo)) :
    ∃ j, (∃ c, q.ctxId = some c ∧ q.leafIndex = none ∧ (views j).db.logLeafByCtx c = some row) ∨
      ∃ raw i, q.ctxId = none ∧ q.leafIndex = some raw ∧
        LogServer.parseParameter "leaf_index" raw = .ok i ∧ (views j).db.logLeafByIndex i = some row := by
  unfold LogServer.lookupLeaf at h
  split at h
  · cases h
  · next c hctx hindex =>
    obtain ⟨visible, -, h⟩ := Proc.runOn_bind_ok.1 h
    split at h
    · cases h
    · rw [Proc.runOn_read_bind] at h
      split at h
      · cases h
      · next found hfound =>
        cases h
        exact ⟨_, .inl ⟨c, hctx, hindex, hfound⟩⟩
  · next raw hctx hindex =>
    obtain ⟨i, hi, h⟩ := Proc.runOn_bind_ok.1 h
    rw [Proc.runOn_lift] at hi
    rw [Proc.runOn_read_bind] at h
    split at h
    · cases h
    · next found hfound =>
      obtain ⟨_, -, h⟩ := Proc.runOn_bind_ok.1 h
      cases h
      exact ⟨_, .inr ⟨raw, i, hctx, hindex, hi, hfound⟩⟩
  · cases h

theorem found_lt_iff (hlog : GrowingLog views) {caller : LogServer.Caller} {current : ℕ}
    {row : LogLeafRow} {echo : Bool}
    (h : (srv.lookupLeaf caller q current).runOn (fun k => views (k + 1)) = .ok (row, echo)) :
    row.leafIndex < (views 0).db.logLeaves.length ↔ ∃ r ∈ (views 0).db.logLeaves, q.Names r := by
  obtain ⟨j, hj⟩ := lookupLeaf_runOn h
  have hgrows := hlog.le (j + 1)
  constructor
  · intro hlt
    have hkept : row ∈ (views (j + 1)).db.logLeaves → row ∈ (views 0).db.logLeaves := by
      intro hrow
      have hat := (hlog.dense (j + 1)).getElem? hrow
      obtain ⟨rest, hrest⟩ := hgrows
      rw [← hrest, List.getElem?_append_left hlt] at hat
      exact List.mem_of_getElem? hat
    rcases hj with ⟨c, hctx, hindex, hrow⟩ | ⟨raw, i, hctx, hindex, hi, hrow⟩
    · refine ⟨row, hkept (List.mem_of_find?_eq_some hrow), fun c' hc' => ?_, fun raw hraw => ?_⟩
      · obtain rfl : c = c' := Option.some.inj (hctx.symm.trans hc')
        simpa using List.find?_some hrow
      · rw [hindex] at hraw
        cases hraw
    · refine ⟨row, hkept (List.mem_of_find?_eq_some hrow), fun c' hc' => ?_, fun raw' hraw => ?_⟩
      · rw [hctx] at hc'
        cases hc'
      · obtain rfl : raw = raw' := Option.some.inj (hindex.symm.trans hraw)
        have hrowi : row.leafIndex = i := by simpa using List.find?_some hrow
        rw [hi, hrowi]
  · rintro ⟨r, hr, hnames⟩
    rcases hj with ⟨c, hctx, -, hrow⟩ | ⟨raw, i, -, hindex, hi, hrow⟩
    · -- the first leaf of the context in the shorter log is the first one in the longer
      have hsome : ((views 0).db.logLeafByCtx c).isSome := by
        rw [Db.logLeafByCtx, List.find?_isSome]
        exact ⟨r, hr, by simpa using hnames.ctxId c hctx⟩
      obtain ⟨r', hr'⟩ := Option.isSome_iff_exists.1 hsome
      obtain rfl : r' = row := Option.some.inj ((hgrows.find?_eq_some hr').symm.trans hrow)
      exact (hlog.dense 0).lt_length (List.mem_of_find?_eq_some hr')
    · have hri : i = r.leafIndex := Except.ok.inj (hi.symm.trans (hnames.leafIndex raw hindex))
      have hrowi : row.leafIndex = i := by simpa using List.find?_some hrow
      rw [hrowi, hri]
      exact (hlog.dense 0).lt_length hr

/-! ## The proof -/

theorem readHashes_runs (hlog : GrowingLog views) (hcalls : CallsSucceed srv views) {n : ℕ}
    (hn : n ≤ (views 0).db.logLeaves.length) :
    ∃ hashes, (srv.readHashes n).runOn views = .ok hashes ∧ hashes.length = n := by
  have hread : (srv.readHashes n).runOn views =
      (((views 0).db.logLeaves.take n).mapM fun r => srv.api.decodeSha256Hex r.leafHash).mapError .acdp := by
    rw [LogServer.readHashes, Proc.runOn_read_bind, Proc.runOn_lift, logLeafHashes_eq (hlog.dense 0) hn]
  cases hmap : ((views 0).db.logLeaves.take n).mapM fun r => srv.api.decodeSha256Hex r.leafHash with
  | ok hashes =>
    have hlen := (except_mapM_ok.1 hmap).length_eq
    rw [List.length_take, Nat.min_eq_left hn] at hlen
    exact ⟨hashes, by rw [hread, hmap]; rfl, hlen.symm⟩
  | error e =>
    obtain ⟨row, hrow, he⟩ := except_mapM_error hmap
    obtain ⟨hash, hhash⟩ := hcalls.hash 0 row (List.mem_of_mem_take hrow)
    rw [he] at hhash
    cases hhash

theorem rootFor_ends (n : ℕ) (hashes : List H) (current : ℕ) (views : ℕ → LogSystem) :
    (srv.rootFor n hashes current).Ends views := by
  unfold LogServer.rootFor
  rw [Proc.ends_bind]
  refine ⟨_, rfl, ?_⟩
  split
  · exact Proc.ends_ret _ _
  · dsimp only
    split
    · exact Proc.ends_bind.2 ⟨(), rfl, Proc.ends_ret _ _⟩
    · exact Proc.ends_ret _ _

theorem mintCheckpoint_ends (hcalls : CallsSucceed srv views) (n : ℕ) (root : String) (now : ℤ)
    (views' : ℕ → LogSystem) :
    (srv.mintCheckpoint RegistryError.acdp n root now).Ends views' := by
  obtain ⟨signature, hsign⟩ := hcalls.sign n root now
  unfold LogServer.mintCheckpoint
  rw [hsign]
  exact Proc.ends_bind.2 ⟨(), rfl, Proc.ends_ret _ _⟩

theorem proveInclusion_ends_iff (hapi : srv.api.Correct) (hlog : GrowingLog views)
    (hcalls : CallsSucceed srv views) (hq : q.treeSize = none) (now : ℤ) {current : ℕ}
    (hcurrent : current ≤ (views 0).db.logLeaves.length) {row : LogLeafRow}
    (hleaf : ∃ json, srv.api.leaf row = .ok json) (echo : Bool) :
    (srv.proveInclusion q now current row echo).Ends views ↔ row.leafIndex < current := by
  obtain ⟨hashes, hread, hlen⟩ := readHashes_runs hlog hcalls hcurrent
  obtain ⟨json, hjson⟩ := hleaf
  have hsize : LogServer.proofSize q row.leafIndex current = .ok current := by
    simp [LogServer.proofSize, hq]
  unfold LogServer.proveInclusion
  rw [hsize]
  constructor
  · intro h
    obtain ⟨n, hn, h⟩ := Proc.ends_bind.1 h
    obtain rfl : current = n := Except.ok.inj hn
    obtain ⟨hashes', hread', h⟩ := Proc.ends_bind.1 h
    obtain rfl : hashes = hashes' := Except.ok.inj (hread.symm.trans hread')
    by_contra hlt
    have hnone : srv.api.inclusionPath row.leafIndex hashes = none := by
      rwa [← Option.not_isSome_iff_eq_none, hapi.inclusionPath, hlen]
    dsimp only at h
    rw [hnone] at h
    exact Proc.not_ends_fail _ _ h
  · intro hlt
    obtain ⟨path, hpath⟩ := Option.isSome_iff_exists.1
      ((hapi.inclusionPath row.leafIndex hashes).2 (hlen.symm ▸ hlt))
    refine Proc.ends_bind.2 ⟨current, rfl, Proc.ends_bind.2 ⟨hashes, hread, ?_⟩⟩
    dsimp only
    rw [hpath]
    obtain ⟨root, hroot⟩ := rootFor_ends current hashes current _
    refine Proc.ends_bind.2 ⟨root, hroot, ?_⟩
    obtain ⟨cp, hcp⟩ := mintCheckpoint_ends hcalls current root now _
    refine Proc.ends_bind.2 ⟨cp, hcp, ?_⟩
    cases echo with
    | true =>
      rw [if_pos rfl, hjson]
      exact Proc.ends_bind.2 ⟨some json, rfl, Proc.ends_bind.2 ⟨_, rfl, Proc.ends_ret _ _⟩⟩
    | false => exact Proc.ends_bind.2 ⟨none, rfl, Proc.ends_bind.2 ⟨_, rfl, Proc.ends_ret _ _⟩⟩

/-- **When a leaf gets its inclusion proof.**  A request with no `tree_size` that has found the leaf it
    names, in a dense log that is only appended to, answers a proof exactly if that leaf was in the log
    already when it read the tree size. -/
theorem inclusion_proof_iff_logged (hapi : srv.api.Correct) (hlog : GrowingLog views)
    (hcalls : CallsSucceed srv views) {caller : LogServer.Caller} {q : LogServer.ProofQuery} {now : ℤ}
    (hq : q.treeSize = none) {row : LogLeafRow} {echo : Bool}
    (hfound : (srv.lookupLeaf caller q (views 0).db.logTreeSize).runOn (fun k => views (k + 1)) =
      .ok (row, echo)) :
    (∃ answer, (srv.inclusionProof caller q now).runOn views = .ok answer) ↔
      ∃ r ∈ (views 0).db.logLeaves, q.Names r := by
  rw [← found_lt_iff hlog hfound]
  have hleaf : ∃ json, srv.api.leaf row = .ok json := by
    obtain ⟨j, ⟨c, -, -, hrow⟩ | ⟨raw, i, -, -, -, hrow⟩⟩ := lookupLeaf_runOn hfound
    · exact hcalls.leaf _ row (List.mem_of_find?_eq_some hrow)
    · exact hcalls.leaf _ row (List.mem_of_find?_eq_some hrow)
  -- the proof is made by the actions after the lookup
  have hprove : ∀ i j, (srv.proveInclusion q now (views 0).db.logTreeSize row echo).Ends
      (fun k => views (k + i + j)) ↔ row.leafIndex < (views 0).db.logLeaves.length := fun i j => by
    refine proveInclusion_ends_iff hapi ((hlog.shift j).shift i) ((hcalls.shift j).shift i) hq now ?_
      hleaf echo
    exact (hlog.le (0 + i + j)).length_le
  show (srv.inclusionProof caller q now).Ends views ↔ _
  unfold LogServer.inclusionProof
  constructor
  · intro h
    obtain ⟨size, hsize, h⟩ := Proc.ends_bind.1 h
    obtain rfl : (views 0).db.logTreeSize = size := Except.ok.inj hsize
    obtain ⟨found, hfound', h⟩ := Proc.ends_bind.1 h
    obtain rfl : (row, echo) = found := Except.ok.inj (hfound.symm.trans hfound')
    exact (hprove _ _).1 h
  · intro h
    refine Proc.ends_bind.2 ⟨_, rfl, Proc.ends_bind.2 ⟨(row, echo), hfound, ?_⟩⟩
    exact (hprove _ _).2 h

def sampleViews (n k : ℕ) : LogSystem :=
  if k < n then {} else Sample.append (Sample.leafRow 0) {}

theorem sampleViews_growing (n : ℕ) : GrowingLog (sampleViews n) := by
  refine ⟨fun k => ?_, fun k => ?_⟩
  · unfold sampleViews
    split <;> rfl
  · unfold sampleViews
    split_ifs
    · exact List.prefix_rfl
    · exact List.nil_prefix
    · omega
    · exact List.prefix_rfl

theorem sampleViews_succeed (n : ℕ) : CallsSucceed Sample.logServer (sampleViews n) :=
  ⟨fun _ row _ => ⟨row.leafHash, rfl⟩, fun _ row _ => ⟨.string row.leafJson, rfl⟩,
    fun _ _ _ => ⟨_, rfl⟩⟩

/-- A leaf that is there from the start has its proof. -/
theorem inclusion_proof_iff_logged_sample :
    ∃ answer, (Sample.logServer.inclusionProof {} { leafIndex := some "0" } 0).runOn (sampleViews 0) =
      .ok answer := by
  have hfound : (Sample.logServer.lookupLeaf {} { leafIndex := some "0" }
      (sampleViews 0 0).db.logTreeSize).runOn (fun k => sampleViews 0 (k + 1)) =
        .ok (Sample.leafRow 0, false) := rfl
  refine (inclusion_proof_iff_logged Sample.logApi_correct (sampleViews_growing 0)
    (sampleViews_succeed 0) rfl hfound).2 ⟨Sample.leafRow 0, List.mem_singleton_self _, ?_, ?_⟩
  · intro c hc
    cases hc
  · intro raw hraw
    cases hraw
    rfl

/-- A leaf that is appended after the size was read is found, and the request fails. -/
theorem logged_leaf_has_no_proof :
    GrowingLog (sampleViews 1) ∧ CallsSucceed Sample.logServer (sampleViews 1) ∧
      (Sample.logServer.lookupLeaf {} { leafIndex := some "0" } (sampleViews 1 0).db.logTreeSize).runOn
          (fun k => sampleViews 1 (k + 1)) = .ok (Sample.leafRow 0, false) ∧
      (Sample.logServer.inclusionProof {} { leafIndex := some "0" } 0).runOn (sampleViews 1) =
        .error (.internal "no inclusion path for leaf 0 at size 0") :=
  ⟨sampleViews_growing 1, sampleViews_succeed 1, rfl, rfl⟩

end AcdpRegistry
