/-
  Lineages are chains.

  The rows of a lineage, in the order they were committed, are its versions
  1 to n: each supersedes the one before it, all but the last are marked
  superseded, and the lineage id is derived from the first.  Two racing
  successors of one version never both commit, because the one that gets the
  version's row lock marks it before it lets go.
-/
import AcdpRegistry.Store.Log

namespace AcdpRegistry

open Lib

/-! ## Chains -/

variable {f : ContextRow → ContextRow} {rows : List ContextRow} {r : ContextRow}

/-- `r'` is a proper successor of `r`. -/
structure Succeeds (r r' : ContextRow) : Prop where
  supersedes : r'.body.supersedes = some r.body.ctxId
  owner : r.body.agentId = r'.body.agentId ∨ r'.body.agentId ∈ r.body.contributors
  tenant : r'.tenantId = r.tenantId ∨ r'.tenantId = "default"

/-- The rows are the versions of one lineage. -/
structure Chain (derive : String → String) (rows : List ContextRow) : Prop where
  version : ∀ k r, rows[k]? = some r → r.body.version = k + 1
  first : ∀ r, rows[0]? = some r → r.body.supersedes = none ∧ r.body.lineageId = derive r.body.ctxId
  link : ∀ k r r', rows[k]? = some r → rows[k + 1]? = some r' → Succeeds r r'
  superseded : ∀ k r, rows[k]? = some r → (r.status = .superseded ↔ k + 1 < rows.length)

theorem Chain.nil (derive : String → String) : Chain derive [] :=
  ⟨by simp, by simp, by simp, by simp⟩

variable {derive : String → String}

theorem Chain.singleton (hv : r.body.version = 1)
    (hs : r.body.supersedes = none) (hl : r.body.lineageId = derive r.body.ctxId)
    (ha : r.status ≠ .superseded) : Chain derive [r] := by
  have hget : ∀ k r', [r][k]? = some r' → k = 0 ∧ r = r' := by
    intro k r' h
    cases k with
    | zero => exact ⟨rfl, by simpa using h⟩
    | succ k => simp at h
  refine ⟨fun k x h => ?_, fun x h => ?_, fun k x y _ h => ?_, fun k x h => ?_⟩
  · obtain ⟨rfl, rfl⟩ := hget k x h; simpa using hv
  · obtain ⟨-, rfl⟩ := hget 0 x h; exact ⟨hs, hl⟩
  · exact absurd (hget _ y h).1 (by omega)
  · obtain ⟨rfl, rfl⟩ := hget k x h; simpa using ha

theorem Succeeds.congr {a a' b b' : ContextRow} (ha : SameRow a a') (hb : SameRow b b')
    (h : Succeeds a b) : Succeeds a' b' := by
  refine ⟨?_, ?_, ?_⟩
  · rw [hb.body, ha.body]; exact h.supersedes
  · rw [hb.body, ha.body]; exact h.owner
  · rw [hb.tenantId, ha.tenantId]; exact h.tenant

theorem Chain.map (h : Chain derive rows) (hf : ∀ r, SameRow r (f r))
    (hstatus : ∀ r, (f r).status = r.status) : Chain derive (rows.map f) := by
  have hget : ∀ (k : ℕ) (x : ContextRow), (rows.map f)[k]? = some x →
      ∃ r, rows[k]? = some r ∧ f r = x := by
    intro k x h
    simpa using h
  refine ⟨fun k x hk => ?_, fun x hk => ?_, fun k x y hk hk' => ?_, fun k x hk => ?_⟩
  · obtain ⟨r, hr, rfl⟩ := hget k x hk
    rw [(hf r).body]; exact h.version k r hr
  · obtain ⟨r, hr, rfl⟩ := hget 0 x hk
    rw [(hf r).body]; exact h.first r hr
  · obtain ⟨r, hr, rfl⟩ := hget k x hk
    obtain ⟨r', hr', rfl⟩ := hget _ y hk'
    exact (h.link k r r' hr hr').congr (hf r) (hf r')
  · obtain ⟨r, hr, rfl⟩ := hget k x hk
    rw [hstatus, List.length_map]; exact h.superseded k r hr

theorem Chain.last (h : Chain derive rows) (hr : r ∈ rows) (hs : r.status ≠ .superseded) :
    rows[rows.length - 1]? = some r ∧ r.body.version = rows.length := by
  obtain ⟨k, hk⟩ := List.getElem?_of_mem hr
  have hlt : k < rows.length := (List.getElem?_eq_some_iff.1 hk).1
  have hlast : k = rows.length - 1 := by
    have : ¬k + 1 < rows.length := fun hlt' => hs ((h.superseded k r hk).2 hlt')
    omega
  refine ⟨hlast ▸ hk, ?_⟩
  rw [h.version k r hk]; omega

theorem Chain.concat (h : Chain derive rows) {new : ContextRow}
    (hr : r ∈ rows) (hstatus : r.status ≠ .superseded) (hnew : Succeeds r new)
    (hversion : new.body.version = r.body.version + 1) (hactive : new.status ≠ .superseded) :
    Chain derive (Db.supersede rows r.body.ctxId ++ [new]) := by
  obtain ⟨hlast, hlen⟩ := h.last hr hstatus
  have hpos : 0 < rows.length := List.length_pos_of_mem hr
  set rows' := Db.supersede rows r.body.ctxId with hrows'
  have hlen' : rows'.length = rows.length := by simp [hrows', Db.supersede, Db.update]
  -- a row of the new list is a marked old one, or the new one at the end
  have hget : ∀ k x, (rows' ++ [new])[k]? = some x →
      (∃ y, k < rows.length ∧ rows[k]? = some y ∧ SameRow y x ∧
        (x.status = .superseded ↔ y.status = .superseded ∨ y.body.ctxId = r.body.ctxId)) ∨
      (k = rows.length ∧ x = new) := by
    intro k x hk
    by_cases hlt : k < rows.length
    · left
      rw [List.getElem?_append_left (by omega)] at hk
      simp only [hrows', Db.supersede, Db.update, List.getElem?_map, Option.map_eq_some_iff] at hk
      obtain ⟨y, hy, rfl⟩ := hk
      refine ⟨y, hlt, hy, ?_, ?_⟩ <;> split
      · exact ⟨rfl, rfl, rfl, fun _ => rfl⟩
      · exact .refl y
      · next hc => simp [hc]
      · next hc => simp [hc]
    · right
      rw [List.getElem?_append_right (by omega)] at hk
      have hk0 : k - rows'.length = 0 := by
        by_contra hne
        rw [List.getElem?_eq_none (by simp; omega)] at hk
        simp at hk
      rw [hk0] at hk
      exact ⟨by omega, by simpa using hk.symm⟩
  -- the old row at the end is `r`
  have hend : ∀ {k y}, k + 1 = rows.length → rows[k]? = some y → y = r := by
    intro k y hk hy
    rw [Nat.eq_sub_of_add_eq hk, hlast] at hy
    exact (Option.some.inj hy).symm
  refine ⟨fun k x hk => ?_, fun x hk => ?_, fun k x z hk hk' => ?_, fun k x hk => ?_⟩
  · rcases hget k x hk with ⟨y, -, hy, hsame, -⟩ | ⟨rfl, rfl⟩
    · rw [hsame.body]; exact h.version k y hy
    · omega
  · rcases hget 0 x hk with ⟨y, -, hy, hsame, -⟩ | ⟨h0, -⟩
    · rw [hsame.body]; exact h.first y hy
    · omega
  · rcases hget k x hk with ⟨y, hlt, hy, hsame, -⟩ | ⟨rfl, -⟩
    · rcases hget _ z hk' with ⟨y', -, hy', hsame', -⟩ | ⟨hk1, rfl⟩
      · exact (h.link k y y' hy hy').congr hsame hsame'
      · obtain rfl := hend hk1 hy
        exact hnew.congr hsame (.refl _)
    · rcases hget _ z hk' with ⟨-, hlt, -⟩ | ⟨hk1, -⟩ <;> omega
  · rw [List.length_append, List.length_singleton, hlen']
    rcases hget k x hk with ⟨y, hlt, hy, -, hmark⟩ | ⟨rfl, rfl⟩
    · refine ⟨fun _ => by omega, fun _ => hmark.2 ?_⟩
      by_cases hk1 : k + 1 < rows.length
      · exact Or.inl ((h.superseded k y hy).2 hk1)
      · exact Or.inr (by rw [hend (by omega) hy])
    · simpa using hactive

/-! ## The lineages of a database -/

variable {ctxId : String} {seen : Db → Prop}

theorem filter_update (hf : ∀ r, (f r).body = r.body) (lineageId : String) :
    (Db.update rows ctxId f).filter (·.body.lineageId = lineageId) =
      Db.update (rows.filter (·.body.lineageId = lineageId)) ctxId f := by
  rw [Db.update, Db.update, List.filter_map]
  congr 2
  funext r
  simp only [Function.comp_apply]
  split
  · rw [hf]
  · rfl

theorem update_eq_self (h : ∀ r ∈ rows, r.body.ctxId ≠ ctxId) : Db.update rows ctxId f = rows := by
  rw [Db.update]
  exact (List.map_congr_left fun r hr => if_neg (h r hr)).trans (List.map_id' rows)

theorem Chain.firstOfLineage {db : Db} {lineageId : String}
    (h : Chain derive (db.lineageRows lineageId)) (hr : r ∈ db.lineageRows lineageId) :
    ∃ first, db.firstOfLineage lineageId = some first ∧ lineageId = derive first.body.ctxId := by
  cases hrows : db.lineageRows lineageId with
  | nil => rw [hrows] at hr; simp at hr
  | cons first rest =>
    rw [hrows] at h
    refine ⟨first, ?_, ?_⟩
    · have hle : ∀ x ∈ rest, Db.rowLe first x = true := by
        intro x hx
        obtain ⟨k, hk⟩ := List.getElem?_of_mem hx
        have hx1 := h.version (k + 1) x (by simpa using hk)
        have hf1 := h.version 0 first rfl
        simp [Db.rowLe, hx1, hf1]
      have hfold : ∀ xs : List ContextRow, (∀ x ∈ xs, Db.rowLe first x = true) →
          xs.foldl (fun best r => if Db.rowLe best r then best else r) first = first := by
        intro xs
        induction xs with
        | nil => intro; rfl
        | cons x xs ih =>
          intro hxs
          rw [List.foldl_cons, if_pos (hxs x List.mem_cons_self)]
          exact ih fun y hy => hxs y (List.mem_cons_of_mem _ hy)
      simp only [Db.firstOfLineage, hrows, hfold rest hle]
    · have hmem : first ∈ db.lineageRows lineageId := by rw [hrows]; exact List.mem_cons_self
      have hlin : first.body.lineageId = lineageId := by
        simpa using List.of_mem_filter hmem
      rw [← hlin]
      exact (h.first first rfl).2

/-- Every lineage is a chain, context ids are unique, and every one of them was drawn by a call. -/
structure Lineages (derive : String → String) (drawn : Set String) (db : Db) : Prop where
  chains : ∀ lineageId, Chain derive (db.lineageRows lineageId)
  unique : (db.contexts.map (·.body.ctxId)).Nodup
  drawn : ∀ r ∈ db.contexts, r.body.ctxId ∈ drawn

/-- `assign_identifiers` as documented: the context id is the one drawn, and the lineage id is derived
    from the first version. -/
structure AssignsFromFirst (api : AcdpApi) (derive : String → String) : Prop where
  ctxId : ∀ {ctxId authority supersedes firstV1 hash ids},
    api.assignIdentifiers ctxId authority supersedes firstV1 hash = .ok ids → ids.1 = ctxId
  first : ∀ {ctxId authority firstV1 hash ids},
    api.assignIdentifiers ctxId authority none firstV1 hash = .ok ids → ids.2 = derive ctxId
  later : ∀ {ctxId authority prev firstV1 hash ids},
    api.assignIdentifiers ctxId authority (some prev) firstV1 hash = .ok ids →
      ∃ v1, firstV1 = some v1 ∧ ids.2 = derive v1

variable {p : Publication}

section Step

variable {derive : String → String} {drawn : Set String} {db : Db}

theorem Lineages.update (h : Lineages derive drawn db) (hf : ∀ r, SameRow r (f r))
    (hstatus : ∀ r, (f r).status = r.status) {db' : Db}
    (hdb : db'.contexts = Db.update db.contexts ctxId f) : Lineages derive drawn db' := by
  have hbodies : db'.contexts.map (·.body) = db.contexts.map (·.body) := by
    rw [hdb, Db.map_body_update fun r => (hf r).body]
  refine ⟨fun lineageId => ?_, ?_, fun r hr => ?_⟩
  · rw [Db.lineageRows, hdb, filter_update fun r => (hf r).body]
    refine (h.chains lineageId).map (fun r => ?_) fun r => ?_ <;> split
    · exact hf r
    · exact .refl r
    · exact hstatus r
    · rfl
  · rw [map_ctxId, hbodies, ← map_ctxId]; exact h.unique
  · have : r.body ∈ db.contexts.map (·.body) := hbodies ▸ List.mem_map_of_mem hr
    obtain ⟨r', hr', he⟩ := List.mem_map.1 this
    rw [← he]; exact h.drawn r' hr'

theorem Lineages.publish_drawn (h : Lineages derive drawn db) (hdrawn : p.row.body.ctxId ∈ drawn) :
    ∀ r ∈ (db.publish p).contexts, r.body.ctxId ∈ drawn := by
  intro r hr
  have hmem : r.body.ctxId ∈ (db.publish p).contexts.map (·.body.ctxId) := List.mem_map_of_mem hr
  rw [Db.ctxIds_publish, List.mem_append, List.mem_singleton] at hmem
  rcases hmem with hmem | hmem
  · obtain ⟨r', hr', he⟩ := List.mem_map.1 hmem
    rw [← he]; exact h.drawn r' hr'
  · rw [hmem]; exact hdrawn

theorem mem_lineageRows {row : ContextRow} {lineageId : String} :
    row ∈ db.lineageRows lineageId ↔ row ∈ db.contexts ∧ row.body.lineageId = lineageId := by
  simp [Db.lineageRows]

theorem Lineages.lineage_free (h : Lineages derive drawn db) (hinj : Set.InjOn derive drawn)
    (hdrawn : ctxId ∈ drawn) (hfresh : db.context? ctxId = none) :
    db.lineageRows (derive ctxId) = [] := by
  cases hrows : db.lineageRows (derive ctxId) with
  | nil => rfl
  | cons r rest =>
    exfalso
    have hmem : r ∈ db.lineageRows (derive ctxId) := by rw [hrows]; exact List.mem_cons_self
    obtain ⟨hr, hlin⟩ := mem_lineageRows.1 hmem
    have hfirst := ((h.chains (derive ctxId)).first r (by rw [hrows]; rfl)).2
    have heq : r.body.ctxId = ctxId := hinj (h.drawn r hr) hdrawn (hfirst.symm.trans hlin)
    exact Db.context?_eq_none.1 hfresh (heq ▸ List.mem_map_of_mem hr)

theorem Accepted.succeeds {st : SqlStore} {c : PublishCommit} {draw : PublishDraw}
    (h : Accepted st c draw seen db p) {row : ContextRow}
    (htarget : Target c row) (hprev : c.req.supersedes = some row.body.ctxId) :
    Succeeds row p.row := by
  have hbody := h.body
  refine ⟨?_, ?_, ?_⟩
  · rw [hbody]; exact hprev
  · rw [hbody]; exact htarget.owner
  · rw [h.row]
    cases ht : c.tenant with
    | none => exact Or.inr (by simp [SqlStore.newRow, ht])
    | some t => exact Or.inl (by simp [SqlStore.newRow, ht, htarget.tenant t ht])

/-- **A publish extends one lineage by one version, or starts one.** -/
theorem Lineages.publish {st : SqlStore} {c : PublishCommit} {draw : PublishDraw}
    (h : Lineages derive drawn db)
    (hseen : ∀ d, seen d → Lineages derive drawn d) (hassign : AssignsFromFirst st.api derive)
    (hversion : c.req.supersedes = none → c.req.version = 1) (hinj : Set.InjOn derive drawn)
    (hdrawn : draw.ctxId ∈ drawn) (hacc : Accepted st c draw seen db p) :
    Lineages derive drawn (db.publish p) := by
  obtain ⟨firstV1, hids, -, htarget⟩ := hacc.ids
  have hctx : p.row.body.ctxId = draw.ctxId := hassign.ctxId hids
  have hstatus : p.row.status ≠ .superseded := by rw [hacc.row]; simp [SqlStore.newRow]
  refine ⟨fun lineageId => ?_, hacc.unique h.unique, h.publish_drawn (hctx ▸ hdrawn)⟩
  have hsup : p.row.body.supersedes = c.req.supersedes := by rw [hacc.body]; rfl
  cases hs : c.req.supersedes with
  | none =>
    rw [hs] at hids
    have hlin : p.row.body.lineageId = derive draw.ctxId := hassign.first hids
    have hrows : (db.publish p).lineageRows lineageId = db.lineageRows lineageId ++
        [p.row].filter (·.body.lineageId = lineageId) := by
      simp only [Db.lineageRows, Db.publish, hsup, hs, List.filter_append]
    rw [hrows]
    by_cases hL : p.row.body.lineageId = lineageId
    · obtain rfl : lineageId = derive draw.ctxId := hL.symm.trans hlin
      rw [h.lineage_free hinj hdrawn (hctx ▸ hacc.fresh), List.nil_append]
      simp only [hL, decide_true, List.filter_cons_of_pos, List.filter_nil]
      refine Chain.singleton ?_ (hsup.trans hs) (by rw [hctx]; exact hlin) hstatus
      rw [hacc.body]; exact hversion hs
    · simpa [hL] using h.chains lineageId
  | some prev =>
    obtain ⟨row, hrow, hfit, -, d, hd, hdrow, rfl⟩ := htarget prev hs
    rw [hs] at hids
    obtain ⟨hmem, rfl⟩ := Db.context?_eq_some hrow
    -- the lineage id is the predecessor's: the first version seen names its lineage
    have hlin : p.row.body.lineageId = row.body.lineageId := by
      obtain ⟨v1, hv1, hlin⟩ := hassign.later hids
      obtain ⟨first, hfirst, hname⟩ := ((hseen d hd).chains row.body.lineageId).firstOfLineage
        (mem_lineageRows.2 ⟨(Db.context?_eq_some hdrow).1, rfl⟩)
      rw [hfirst, Option.map_some, Option.some.injEq] at hv1
      rw [hname, hv1]; exact hlin
    have hrows : (db.publish p).lineageRows lineageId =
        Db.supersede (db.lineageRows lineageId) row.body.ctxId ++
          [p.row].filter (·.body.lineageId = lineageId) := by
      have hne : ∀ r ∈ [p.row].filter (·.body.lineageId = lineageId),
          r.body.ctxId ≠ row.body.ctxId := by
        intro r hr he
        rw [List.mem_singleton.1 (List.mem_of_mem_filter hr)] at he
        have hfresh := hacc.fresh
        rw [he, hrow] at hfresh
        cases hfresh
      simp only [Db.lineageRows, Db.publish, hsup, hs]
      rw [Db.supersede, filter_update (by exact fun _ => rfl), List.filter_append, Db.update,
        List.map_append]
      exact congrArg (_ ++ ·) (update_eq_self hne)
    rw [hrows]
    by_cases hL : row.body.lineageId = lineageId
    · subst hL
      simp only [hlin, decide_true, List.filter_cons_of_pos, List.filter_nil]
      refine (h.chains _).concat (mem_lineageRows.2 ⟨hmem, rfl⟩) hfit.status
        (hacc.succeeds hfit hs) ?_ hstatus
      rw [hacc.body]; exact hfit.version
    · have hnone : ∀ r ∈ db.lineageRows lineageId, r.body.ctxId ≠ row.body.ctxId := by
        intro r hr he
        obtain ⟨hr, hrL⟩ := mem_lineageRows.1 hr
        exact hL ((List.inj_on_of_nodup_map h.unique hr hmem he) ▸ hrL)
      have hL' : ¬p.row.body.lineageId = lineageId := hlin ▸ hL
      rw [Db.supersede, update_eq_self hnone]
      simpa [hL'] using h.chains lineageId

end Step

/-! ## Every interleaving -/

def drawnIds {ι : Type} (call : ι → Call) : Set String :=
  { id | ∃ i st c draw, call i = .publish st c draw ∧ draw.ctxId = id }

theorem Lineages.step {ι : Type} {call : ι → Call} {i : ι}
    {db db' : Db} {a : CallDone} (h : Lineages derive (drawnIds call) db)
    (hseen : ∀ d, seen d → Lineages derive (drawnIds call) d)
    (hassign : AssignsFromFirst (call i).store.api derive)
    (hversion : ∀ st c draw, call i = .publish st c draw → c.req.supersedes = none → c.req.version = 1)
    (hinj : Set.InjOn derive (drawnIds call)) (hs : CommitStep seen (call i) db db' a) :
    Lineages derive (drawnIds call) db' := by
  generalize hcall : call i = k at hs
  cases hs with
  | @publish st c draw _ p hacc =>
    rw [hcall] at hassign
    exact h.publish hseen hassign (hversion st c draw hcall) hinj ⟨i, st, c, draw, hcall, rfl⟩ hacc
  | event => exact h.update (by exact fun _ => ⟨rfl, rfl, rfl, id⟩) (by exact fun _ => rfl) rfl
  | evict => exact ⟨h.chains, h.unique, h.drawn⟩

theorem lineages_reachable {ι : Type} {call : ι → Call} (S : StoreSchedule call) (h0 : S.db 0 = {})
    (hassign : ∀ i, AssignsFromFirst (call i).store.api derive)
    (hversion : ∀ i st c draw, call i = .publish st c draw → c.req.supersedes = none →
      c.req.version = 1)
    (hinj : Set.InjOn derive (drawnIds call)) : ∀ n, Lineages derive (drawnIds call) (S.db n) := by
  refine S.keeps ?_ fun n i hn hI => ?_
  · rw [h0]
    exact ⟨fun _ => .nil derive, List.nodup_nil, by simp⟩
  · obtain ⟨a, -, hs⟩ := commit_step S hn
    refine (hI n le_rfl).step (fun d hd => ?_) (hassign i) (hversion i) hinj hs
    obtain ⟨m, hm, rfl⟩ := hd.past S hn
    exact hI m hm

/-- **Lineages are chains.**  In every interleaving of calls, from an empty database: each lineage's
    rows are its versions `1 .. n`, each superseding the one before, by its producer or a contributor,
    and all but the last marked superseded; a tenanted successor has its predecessor's tenant. -/
theorem lineage_chains {ι : Type} {call : ι → Call} (S : StoreSchedule call) (h0 : S.db 0 = {})
    {derive : String → String} (hassign : ∀ i, AssignsFromFirst (call i).store.api derive)
    (hversion : ∀ i st c draw, call i = .publish st c draw → c.req.supersedes = none →
      c.req.version = 1)
    (hinj : Set.InjOn derive (drawnIds call)) :
    (∀ n lineageId, Chain derive ((S.db n).lineageRows lineageId)) ∧
    (∀ n i st c draw prev t, S.commits n = some i → call i = .publish st c draw →
      c.req.supersedes = some prev → c.tenant = some t → ∀ m, n < m →
      ∃ row pred, (S.db m).context? draw.ctxId = some row ∧ row.body.supersedes = some prev ∧
        (S.db m).context? prev = some pred ∧ row.tenantId = t ∧ pred.tenantId = t) := by
  refine ⟨fun n => ?_, fun n i st c draw prev t hn hi hprev ht m hm => ?_⟩
  · exact (lineages_reachable S h0 hassign hversion hinj n).chains
  · obtain ⟨a, -, hs⟩ := commit_step S hn
    have hassign := hassign i
    rw [hi] at hs hassign
    generalize hdb : S.db (n + 1) = db' at hs
    cases hs with
    | @publish _ _ _ _ p hacc =>
      obtain ⟨firstV1, hids, -, htarget⟩ := hacc.ids
      obtain ⟨pred, hpred, hfit, -⟩ := htarget prev hprev
      obtain ⟨row, hrow, hsame⟩ := hacc.context?_publish
      have hctx : p.row.body.ctxId = draw.ctxId := hassign.ctxId hids
      rw [← hdb, hctx] at hrow
      obtain ⟨row', hrow', hsame'⟩ := row_kept S hm hrow
      obtain ⟨pred', hpred', hsameP⟩ := row_kept S hm.le hpred
      have hnew := hsame.trans hsame'
      refine ⟨row', pred', hrow', ?_, hpred', ?_, ?_⟩
      · rw [hnew.body, hacc.body]; exact hprev
      · rw [hnew.tenantId, hacc.row]; simp [SqlStore.newRow, ht]
      · rw [hsameP.tenantId, hfit.tenant t ht]

theorem Sample.assignsFromFirst : AssignsFromFirst Sample.api id := by
  refine ⟨?_, ?_, ?_⟩
  · intro ctxId authority supersedes firstV1 hash ids h
    cases supersedes <;> cases firstV1 <;> cases h <;> rfl
  · intro ctxId authority firstV1 hash ids h
    cases h; rfl
  · intro ctxId authority prev firstV1 hash ids h
    cases firstV1 with
    | none => cases h
    | some v1 => cases h; exact ⟨v1, rfl, rfl⟩

theorem lineage_chains_sample :
    Chain id (((Schedule.serial (fun i => (sampleLogCalls i).tx) {}).db 2).lineageRows "ctx1") ∧
      (((Schedule.serial (fun i => (sampleLogCalls i).tx) {}).db 2).lineageRows "ctx1").map
        (fun r => (r.body.version, r.status)) = [(1, .superseded), (2, .active)] := by
  refine ⟨(@lineage_chains _ sampleLogCalls (Schedule.serial _ {}) rfl id ?_ ?_
    Function.injective_id.injOn).1 2 "ctx1", by decide⟩
  · intro i
    fin_cases i <;> exact Sample.assignsFromFirst
  · intro i st c draw h
    fin_cases i <;> cases h <;> simp [Sample.request]

end AcdpRegistry
