/-
  The receipts of a context's events.

  Appends of minting and non-minting replicas and sweeps leave a block of receipts
  followed by a block of empty slots.  Fill-on-append and the sweep complete the
  second block, each clamp chained from the last, so the receipts stay in order
  whatever the clocks say.  A list that has a hole is never filled.
-/
import AcdpRegistry.Store.Backfill
import AcdpRegistry.Store.History

namespace AcdpRegistry

open Lib

/-! ## Slots -/

variable {event : LifecycleEvent} {i : ℕ}

variable {api : AcdpApi}

namespace StoredReceipt

theorem hasHole_replicate (seen : Bool) (k : ℕ) : hasHole seen (List.replicate k .null) = false := by
  induction k generalizing seen with
  | zero => rfl
  | succ k ih => exact ih true

theorem hasHole_append (rs : List EventReceipt) (k : ℕ) :
    hasHole false (rs.map .valid ++ List.replicate k .null) = false := by
  induction rs with
  | nil => exact hasHole_replicate false k
  | cons r rs ih => exact ih

theorem decode_eq_null {value : Option Json} :
    decode api value event i = .null ↔ value = none := by
  unfold decode
  split
  · simp
  · split
    · split <;> simp
    · simp

end StoredReceipt

/-! ## Clocks -/

variable {api : AcdpApi} {prev : Option ℤ}

theorem le_ceilMs (t : ℤ) : t ≤ ceilMs api t := by
  simp only [ceilMs, api.truncMs_eq, wholeMs]
  split <;> omega

theorem wholeMs_ceilMs (t : ℤ) : wholeMs (ceilMs api t) = ceilMs api t := by
  simp only [ceilMs, api.truncMs_eq, wholeMs]
  split <;> omega

theorem clampAcceptedAt_spec (now createdAt : ℤ) (hprev : ∀ p, prev = some p → wholeMs p = p) :
    wholeMs (clampAcceptedAt api now createdAt prev) = clampAcceptedAt api now createdAt prev ∧
      createdAt ≤ clampAcceptedAt api now createdAt prev := by
  have hbase : wholeMs (max (wholeMs now) (ceilMs api createdAt)) = max (wholeMs now) (ceilMs api createdAt) := by
    rcases max_choice (wholeMs now) (ceilMs api createdAt) with h | h
    · rw [h, wholeMs_wholeMs]
    · rw [h, wholeMs_ceilMs]
  have hcreated := (le_ceilMs createdAt).trans (le_max_right (wholeMs now) (ceilMs api createdAt))
  simp only [clampAcceptedAt, api.truncMs_eq]
  cases prev with
  | none => exact ⟨hbase, hcreated⟩
  | some p =>
    refine ⟨?_, hcreated.trans (le_max_left _ _)⟩
    rcases max_choice (max (wholeMs now) (ceilMs api createdAt)) p with h | h
    · simp only [h, hbase]
    · simp only [h, hprev p rfl]

theorem le_clampAcceptedAt (now createdAt p : ℤ) : p ≤ clampAcceptedAt api now createdAt (some p) :=
  le_max_right _ _

/-! ## Rising receipts -/

variable {prior : List EventSlot} {r : EventReceipt}

/-- Receipts with whole milliseconds, not before the context, each not before the last. -/
structure Rising (createdAt : ℤ) (rs : List EventReceipt) : Prop where
  whole : ∀ r ∈ rs, wholeMs r.acceptedAt = r.acceptedAt
  created : ∀ r ∈ rs, createdAt ≤ r.acceptedAt
  sorted : rs.Pairwise (·.acceptedAt ≤ ·.acceptedAt)

/-- `prev` is not before any of the receipts. -/
structure Latest (rs : List EventReceipt) (prev : Option ℤ) : Prop where
  le : ∀ r ∈ rs, ∃ p, prev = some p ∧ r.acceptedAt ≤ p
  whole : ∀ p, prev = some p → wholeMs p = p

theorem rising_nil (createdAt : ℤ) : Rising createdAt [] := ⟨by simp, by simp, .nil⟩

variable {rs : List EventReceipt} {createdAt now : ℤ}

theorem Rising.concat (h : Rising createdAt rs)
    (hprev : Latest rs prev) (hr : r.acceptedAt = clampAcceptedAt api now createdAt prev) :
    Rising createdAt (rs ++ [r]) ∧ Latest (rs ++ [r]) (some r.acceptedAt) := by
  obtain ⟨hwhole, hcreated⟩ := clampAcceptedAt_spec now createdAt hprev.whole
  rw [← hr] at hwhole hcreated
  have hle : ∀ r' ∈ rs, r'.acceptedAt ≤ r.acceptedAt := by
    intro r' hr'
    obtain ⟨p, rfl, hp⟩ := hprev.le r' hr'
    rw [hr]
    exact hp.trans (le_clampAcceptedAt now createdAt p)
  refine ⟨⟨?_, ?_, ?_⟩, ?_, ?_⟩
  · simpa [or_imp, forall_and] using ⟨h.whole, hwhole⟩
  · simpa [or_imp, forall_and] using ⟨h.created, hcreated⟩
  · refine List.pairwise_append.2 ⟨h.sorted, List.pairwise_singleton _ _, fun a ha b hb => ?_⟩
    rw [List.mem_singleton.1 hb]
    exact hle a ha
  · intro r' hr'
    refine ⟨_, rfl, ?_⟩
    rcases List.mem_append.1 hr' with hold | hnew
    · exact hle r' hold
    · rw [List.mem_singleton.1 hnew]
  · rintro p ⟨⟩
    exact hwhole

theorem le_latestAcceptedAt {slot : EventSlot} (hslot : slot ∈ prior) (hr : slot.2 = .valid r) :
    ∃ p, latestAcceptedAt prior = some p ∧ r.acceptedAt ≤ p := by
  have hmem : r.acceptedAt ∈
      prior.filterMap fun s => s.2.intoOption.map EventReceipt.acceptedAt :=
    List.mem_filterMap.2 ⟨slot, hslot, by rw [hr]; rfl⟩
  cases hmax : latestAcceptedAt prior with
  | none => 
    rw [latestAcceptedAt, List.max?_eq_none_iff] at hmax
    rw [hmax] at hmem
    cases hmem
  | some p => exact ⟨p, rfl, (List.max?_eq_some_iff.1 hmax).2 _ hmem⟩

theorem latestAcceptedAt_eq_some {p : ℤ} (h : latestAcceptedAt prior = some p) :
    ∃ slot ∈ prior, ∃ r, slot.2 = .valid r ∧ r.acceptedAt = p := by
  obtain ⟨slot, hslot, hp⟩ := List.mem_filterMap.1 (List.max?_eq_some_iff.1 h).1
  refine ⟨slot, hslot, ?_⟩
  cases hs : slot.2 with
  | valid r =>
    rw [hs] at hp
    exact ⟨r, rfl, Option.some.inj hp⟩
  | null => rw [hs] at hp; cases hp
  | corrupt => rw [hs] at hp; cases hp

/-! ## Plans -/

variable {last : Option ℤ}

/-- The minter signs what it is given, and what it signs is read back from storage as it was. -/
structure MinterFaithful (api : AcdpApi) (m : EventReceiptMinter) : Prop where
  keeps : ∀ {ctxId v i t r}, m ctxId v i t = .ok r → r.acceptedAt = t
  binds : ∀ {ctxId e v i t r}, api.eventValue e = .ok v → m ctxId v i t = .ok r →
    r.ctxId = ctxId ∧ r.eventId = e.eventId ∧ r.index = i
  readsBack : ∀ {ctxId v i t r w}, m ctxId v i t = .ok r → wholeMs t = t → api.receiptValue r = .ok w →
    api.eventReceiptFromValue w = .ok r

/-- The receipt is the minter's for the event at an index. -/
def MintedAs (api : AcdpApi) (m : EventReceiptMinter) (ctxId : String) (i : ℕ) (e : LifecycleEvent)
    (r : EventReceipt) : Prop :=
  ∃ v, api.eventValue e = .ok v ∧ m ctxId v i r.acceptedAt = .ok r

section Plans

variable {api : AcdpApi} {m : EventReceiptMinter} {ctxId : String} {createdAt now : ℤ}

theorem fillNulls_append {pre rest : List EventSlot} (hpre : ∀ s ∈ pre, s.2 ≠ .null) (i : ℕ)
    (prev : Option ℤ) :
    fillNulls api m ctxId createdAt now i prev (pre ++ rest) =
      fillNulls api m ctxId createdAt now (i + pre.length) prev rest := by
  induction pre generalizing i with
  | nil => rfl
  | cons s pre ih =>
    obtain ⟨e, slot⟩ := s
    have hrest := ih (fun s hs => hpre s (List.mem_cons_of_mem _ hs)) (i + 1)
    rw [List.length_cons, ← Nat.add_assoc, Nat.add_right_comm, ← hrest]
    cases slot with
    | null => exact absurd rfl (hpre _ List.mem_cons_self)
    | valid r => rfl
    | corrupt => rfl

theorem fillNulls_nulls (hm : MinterFaithful api m) {events : List LifecycleEvent}
    {fills : List (ℕ × EventReceipt)} {before : List EventReceipt}
    (h : fillNulls api m ctxId createdAt now i prev (events.map fun e => (e, .null)) = .ok (fills, last))
    (hrise : Rising createdAt before) (hprev : Latest before prev) :
    ∃ rs, fills = rs.mapIdx (fun j r => (i + j, r)) ∧ rs.length = events.length ∧
      (∀ j e r, events[j]? = some e → rs[j]? = some r → MintedAs api m ctxId (i + j) e r) ∧
      Rising createdAt (before ++ rs) ∧ Latest (before ++ rs) last := by
  induction events generalizing i prev fills before with
  | nil =>
    cases h
    exact ⟨[], rfl, rfl, by simp, by simpa using hrise, by simpa using hprev⟩
  | cons e events ih =>
    obtain ⟨v, hv, h⟩ := except_bind_ok.1 h
    obtain ⟨r, hr, h⟩ := except_bind_ok.1 h
    obtain ⟨⟨fills', last'⟩, hfills, h⟩ := except_bind_ok.1 h
    cases h
    have hat := hm.keeps hr
    obtain ⟨hrise', hprev'⟩ := hrise.concat hprev hat
    obtain ⟨rs, rfl, hlen, hmints, hall, hlast⟩ := ih hfills hrise' hprev'
    rw [List.append_assoc] at hall hlast
    refine ⟨r :: rs, ?_, by simp [hlen], fun j e' r' he hr' => ?_, hall, hlast⟩
    · rw [List.mapIdx_cons]
      simp only [Nat.add_zero, Nat.add_assoc, Nat.add_comm 1]
    · cases j with
      | zero =>
        cases he
        cases hr'
        exact ⟨v, hv, hat.symm ▸ hr⟩
      | succ j =>
        rw [Nat.add_comm j, ← Nat.add_assoc]
        exact hmints j e' r' he hr'

theorem fillNulls_eq_nil (h : fillNulls api m ctxId createdAt now i prev prior = .ok ([], last)) :
    ∀ s ∈ prior, s.2 ≠ .null := by
  induction prior generalizing i prev with
  | nil => simp
  | cons s prior ih =>
    obtain ⟨e, slot⟩ := s
    cases slot with
    | null =>
      obtain ⟨v, -, h⟩ := except_bind_ok.1 h
      obtain ⟨r, -, h⟩ := except_bind_ok.1 h
      obtain ⟨_, -, h⟩ := except_bind_ok.1 h
      cases h
    | valid r => exact List.forall_mem_cons.2 ⟨by simp, ih h⟩
    | corrupt => exact List.forall_mem_cons.2 ⟨by simp, ih h⟩

theorem planEventReceipts_ok {plan : ReceiptPlan}
    (h : planEventReceipts api m ctxId createdAt prior event now = .ok plan) :
    ∃ last v, api.eventValue event = .ok v ∧
      m ctxId v prior.length (clampAcceptedAt api now createdAt last) = .ok plan.new ∧
      if StoredReceipt.hasHole false (prior.map Prod.snd) then
        plan.fills = [] ∧ last = latestAcceptedAt prior
      else fillNulls api m ctxId createdAt now 0 (latestAcceptedAt prior) prior = .ok (plan.fills, last) := by
  unfold planEventReceipts at h
  dsimp only at h
  split at h
  · next hhole =>
    obtain ⟨_, ⟨⟩, h⟩ := except_bind_ok.1 h
    obtain ⟨v, hv, h⟩ := except_bind_ok.1 h
    obtain ⟨new, hnew, h⟩ := except_bind_ok.1 h
    cases h
    exact ⟨_, v, hv, hnew, by rw [if_pos hhole]; exact ⟨rfl, rfl⟩⟩
  · next hhole =>
    obtain ⟨⟨fills, last⟩, hfills, h⟩ := except_bind_ok.1 h
    obtain ⟨v, hv, h⟩ := except_bind_ok.1 h
    obtain ⟨new, hnew, h⟩ := except_bind_ok.1 h
    cases h
    exact ⟨last, v, hv, hnew, by rw [if_neg hhole]; exact hfills⟩

theorem fillNulls_of_full (hfull : ∀ s ∈ prior, s.2 ≠ .null) (i : ℕ) (prev : Option ℤ) :
    fillNulls api m ctxId createdAt now i prev prior = .ok ([], prev) := by
  rw [← List.append_nil prior, fillNulls_append hfull]
  rfl

end Plans

/-! ## Rows -/

variable {db : Db} {c : String}

def fillRow (ctxId : String) (written : List (String × Json)) (row : LifecycleEventRow) :
    LifecycleEventRow :=
  if row.event.ctxId = ctxId ∧ row.receipt = none then
    { row with receipt := written.lookup row.event.eventId }
  else row

section Rows

variable {ctxId : String} {written : List (String × Json)} {row : LifecycleEventRow}

theorem fillReceipts_eq (rows : List LifecycleEventRow) :
    Db.fillReceipts rows ctxId written = rows.map (fillRow ctxId written) := by
  induction written generalizing rows with
  | nil =>
    refine (List.map_id rows).symm.trans (List.map_congr_left fun row _ => ?_)
    unfold fillRow
    split
    · next h =>
      obtain ⟨event, tenantId, receipt⟩ := row
      cases h.2
      rfl
    · rfl
  | cons f written ih =>
    obtain ⟨eventId, value⟩ := f
    show Db.fillReceipts (Db.fillReceipt rows ctxId eventId value) ctxId written = _
    rw [ih, Db.fillReceipt, List.map_map]
    refine List.map_congr_left fun row _ => ?_
    obtain ⟨event, tenantId, receipt⟩ := row
    simp only [Function.comp_apply, fillRow, List.lookup_cons]
    cases receipt with
    | some v => simp
    | none =>
      by_cases hctx : event.ctxId = ctxId
      · by_cases hid : event.eventId = eventId
        · simp [hctx, hid]
        · simp [hctx, hid, beq_eq_false_iff_ne.2 hid]
      · simp [hctx]

@[simp] theorem event_fillRow : (fillRow ctxId written row).event = row.event := by
  unfold fillRow
  split <;> rfl

theorem fillRow_of_some {v : Json} (h : row.receipt = some v) : fillRow ctxId written row = row := by
  simp [fillRow, h]

theorem fillRow_of_ne (h : row.event.ctxId ≠ ctxId) : fillRow ctxId written row = row := by
  simp [fillRow, h]

theorem fillRow_of_none (hctx : row.event.ctxId = ctxId) (h : row.receipt = none) :
    (fillRow ctxId written row).receipt = written.lookup row.event.eventId := by
  simp [fillRow, h, hctx]

theorem filter_map_fillRow (rows : List LifecycleEventRow) (c : String) :
    (rows.map (fillRow ctxId written)).filter (·.event.ctxId = c) =
      (rows.filter (·.event.ctxId = c)).map (fillRow ctxId written) := by
  rw [List.filter_map]
  simp only [Function.comp_def, event_fillRow]

theorem Db.events_fill (db : Db) (c : String) :
    (db.fill ctxId written).events c = (db.events c).map (fillRow ctxId written) := by
  rw [Db.events, Db.fill, fillReceipts_eq, filter_map_fillRow]
  rfl

theorem Db.events_applyEvent (db : Db) (a : EventAppend) (c : String) :
    (db.applyEvent a).events c = (db.events c).map (fillRow a.event.ctxId a.fills) ++
      if a.event.ctxId = c then [a.row] else [] := by
  rw [Db.events, Db.applyEvent, fillReceipts_eq, List.filter_append, filter_map_fillRow]
  congr 1
  by_cases hc : a.event.ctxId = c
  · rw [if_pos hc]
    exact List.filter_eq_self.2 (by simpa [EventAppend.row, SqlStore.storedEvent] using hc)
  · rw [if_neg hc]
    exact List.filter_eq_nil_iff.2 (by simpa [EventAppend.row, SqlStore.storedEvent] using hc)

theorem Db.mem_events (h : row ∈ db.events c) : row.event.ctxId = c := by
  simpa using (List.mem_filter.1 h).2

theorem map_fillRow_of_ne (h : c ≠ ctxId) :
    (db.events c).map (fillRow ctxId written) = db.events c := by
  refine (List.map_congr_left fun row hrow => ?_).trans (List.map_id _)
  exact fillRow_of_ne (Db.mem_events hrow ▸ h)

end Rows

variable {written : List (String × Json)}

theorem lookup_of_getElem? (hnodup : (written.map Prod.fst).Nodup) {j : ℕ}
    {w : String × Json} (h : written[j]? = some w) : written.lookup w.1 = some w.2 := by
  induction written generalizing j with
  | nil => cases h
  | cons f written ih =>
    rw [List.map_cons, List.nodup_cons] at hnodup
    cases j with
    | zero =>
      cases h
      exact List.lookup_cons_self
    | succ j =>
      have hmem : w.1 ∈ written.map Prod.fst := List.mem_map_of_mem (List.mem_of_getElem? h)
      have hne : w.1 ≠ f.1 := fun he => hnodup.1 (he ▸ hmem)
      rw [List.lookup_cons, beq_eq_false_iff_ne.2 hne]
      exact ih hnodup.2 h

/-! ## Receipts of a context -/

/-- The first rows have these receipts, each minted by a replica for its event and index, and the
    others none. -/
structure Receipted (api : AcdpApi) (minters : EventReceiptMinter → Prop) (ctxId : String) (createdAt : ℤ)
    (rows : List LifecycleEventRow) (rs : List EventReceipt) : Prop where
  le : rs.length ≤ rows.length
  rising : Rising createdAt rs
  slot : ∀ i row r, rows[i]? = some row → rs[i]? = some r →
    (∃ v, row.receipt = some v ∧ api.eventReceiptFromValue v = .ok r) ∧
      ∃ m, minters m ∧ MintedAs api m ctxId i row.event r
  empty : ∀ i row, rows[i]? = some row → rs.length ≤ i → row.receipt = none
  ctx : ∀ row ∈ rows, row.event.ctxId = ctxId

variable {row : LifecycleEventRow} {st : SqlStore} {m : EventReceiptMinter}

section Receipted

variable {api : AcdpApi} {minters : EventReceiptMinter → Prop} {ctxId : String} {createdAt now : ℤ}
  {rows : List LifecycleEventRow} {rs : List EventReceipt}

theorem getElem?_eventSlots (rows : List LifecycleEventRow) (i : ℕ) : (eventSlots api rows)[i]? =
    rows[i]?.map fun row => (row.event, StoredReceipt.decode api row.receipt row.event i) := by
  rw [eventSlots, List.getElem?_mapIdx]

theorem receipted_nil : Receipted api minters ctxId createdAt [] [] :=
  ⟨le_rfl, rising_nil createdAt, by simp, by simp, by simp⟩

section Fills

variable {st : SqlStore} (hst : st.api = api) {new : List EventReceipt} {k : ℕ}
  {written : List (String × Json)}
  (hwritten : List.Forall₂ (st.Fills (eventSlots api rows)) (new.mapIdx fun j r => (k + j, r)) written)

include hst hwritten

theorem fills_getElem? {j : ℕ} (hrow : rows[k + j]? = some row) (hr : new[j]? = some r) :
    ∃ w, written[j]? = some w ∧ w.1 = row.event.eventId ∧ api.receiptValue r = .ok w.2 := by
  have hat : (new.mapIdx fun j r => (k + j, r))[j]? = some (k + j, r) := by
    rw [List.getElem?_mapIdx, hr]
    rfl
  obtain ⟨w, hw, hid, hvalue⟩ := forall₂_getElem? hwritten hat
  rw [getElem?_eventSlots, hrow] at hid
  exact ⟨w, hw, hid, hst ▸ hvalue⟩

theorem fills_ids (hlen : new.length = rows.length - k) :
    written.map Prod.fst = (rows.drop k).map (·.event.eventId) := by
  refine List.ext_getElem? fun j => ?_
  rw [List.getElem?_map, List.getElem?_map, List.getElem?_drop]
  cases hrow : rows[k + j]? with
  | none =>
    have hj := List.getElem?_eq_none_iff.1 hrow
    have hwlen := hwritten.length_eq
    rw [List.length_mapIdx] at hwlen
    rw [List.getElem?_eq_none (by omega)]
    rfl
  | some row =>
    have hj := (List.getElem?_eq_some_iff.1 hrow).1
    obtain ⟨w, hw, hid, -⟩ := fills_getElem? hst hwritten hrow (List.getElem?_eq_getElem (by omega))
    rw [hw]
    exact congrArg some hid

end Fills

section

variable (hm : ∀ m, minters m → MinterFaithful api m) (h : Receipted api minters ctxId createdAt rows rs)

include hm h

theorem Receipted.decode (hrow : rows[i]? = some row)
    (hr : rs[i]? = some r) : StoredReceipt.decode api row.receipt row.event i = .valid r := by
  obtain ⟨⟨v, hv, hread⟩, m, hmint, w, hw, hr⟩ := h.slot i row r hrow hr
  obtain ⟨hctx, hid, hindex⟩ := (hm m hmint).binds hw hr
  have hrowctx := h.ctx row (List.mem_of_getElem? hrow)
  simp only [StoredReceipt.decode, hv, hread]
  rw [if_pos ⟨hid, hindex, hctx.trans hrowctx.symm⟩]

theorem Receipted.slots : (eventSlots api rows).map Prod.snd =
    rs.map .valid ++ List.replicate (rows.length - rs.length) .null := by
  refine List.ext_getElem? fun i => ?_
  rw [List.getElem?_map, getElem?_eventSlots, Option.map_map, List.getElem?_append, List.length_map,
    List.getElem?_map, List.getElem?_replicate]
  cases hrow : rows[i]? with
  | none =>
    have hi := List.getElem?_eq_none_iff.1 hrow
    have hle := h.le
    rw [if_neg (by omega), if_neg (by omega)]
    rfl
  | some row =>
    have hi := (List.getElem?_eq_some_iff.1 hrow).1
    split
    · next hlt =>
      rw [List.getElem?_eq_getElem hlt]
      exact congrArg some (h.decode hm hrow (List.getElem?_eq_getElem hlt))
    · next hge =>
      rw [if_pos (by omega)]
      exact congrArg some (StoredReceipt.decode_eq_null.2 (h.empty i row hrow (by omega)))

theorem Receipted.hasHole : StoredReceipt.hasHole false ((eventSlots api rows).map Prod.snd) = false :=
  h.slots hm ▸ StoredReceipt.hasHole_append rs _

theorem Receipted.split : ∃ pre, eventSlots api rows =
      pre ++ ((rows.drop rs.length).map (·.event)).map (fun e => (e, .null)) ∧
    pre.length = rs.length ∧ ∀ s ∈ pre, s.2 ≠ .null := by
  refine ⟨(eventSlots api rows).take rs.length, ?_, ?_, ?_⟩
  · conv_lhs => rw [← List.take_append_drop rs.length (eventSlots api rows)]
    congr 1
    refine List.ext_getElem? fun i => ?_
    rw [List.getElem?_drop, getElem?_eventSlots, List.map_map, List.getElem?_map, List.getElem?_drop]
    cases hrow : rows[rs.length + i]? with
    | none => rfl
    | some row =>
      have hempty := h.empty _ row hrow (Nat.le_add_right _ _)
      exact congrArg some (Prod.ext rfl (StoredReceipt.decode_eq_null.2 hempty))
  · rw [List.length_take, eventSlots, List.length_mapIdx]
    exact Nat.min_eq_left h.le
  · intro s hs
    have hmem : s.2 ∈ ((eventSlots api rows).map Prod.snd).take rs.length := by
      rw [← List.map_take]
      exact List.mem_map_of_mem hs
    rw [h.slots hm, List.take_left' (by simp)] at hmem
    obtain ⟨r, -, hr⟩ := List.mem_map.1 hmem
    rw [← hr]
    simp

theorem Receipted.latest : Latest rs (latestAcceptedAt (eventSlots api rows)) := by
  have hvalid : ∀ r, StoredReceipt.valid r ∈ (eventSlots api rows).map Prod.snd ↔ r ∈ rs := by
    intro r
    rw [h.slots hm]
    simp [List.mem_replicate]
  refine ⟨fun r hr => ?_, fun p hp => ?_⟩
  · obtain ⟨slot, hslot, hr⟩ := List.mem_map.1 ((hvalid r).2 hr)
    exact le_latestAcceptedAt hslot hr
  · obtain ⟨slot, hslot, r, hr, rfl⟩ := latestAcceptedAt_eq_some hp
    exact h.rising.whole r ((hvalid r).1 (hr ▸ List.mem_map_of_mem hslot))

theorem Receipted.fill (hst : st.api = api)
    (hmint : minters m) (hids : (rows.map (·.event.eventId)).Nodup)
    {fills : List (ℕ × EventReceipt)}
    (hfills : fillNulls api m ctxId createdAt now 0 (latestAcceptedAt (eventSlots api rows))
      (eventSlots api rows) = .ok (fills, last))
    (hwritten : List.Forall₂ (st.Fills (eventSlots api rows)) fills written) :
    ∃ rs', Receipted api minters ctxId createdAt (rows.map (fillRow ctxId written)) rs' ∧
      rs'.length = rows.length ∧ Latest rs' last := by
  obtain ⟨pre, hsplit, hpre, hnull⟩ := h.split hm
  rw [hsplit, fillNulls_append hnull, ← hsplit] at hfills
  obtain ⟨new, rfl, hlen, hmints, hrise, hlatest⟩ := fillNulls_nulls (hm m hmint) hfills h.rising
    (h.latest hm)
  rw [Nat.zero_add, hpre] at hmints hwritten
  rw [List.length_map, List.length_drop] at hlen
  have hle := h.le
  have hnodup : (written.map Prod.fst).Nodup := by
    rw [fills_ids hst hwritten hlen]
    exact hids.sublist ((List.drop_sublist _ _).map _)
  refine ⟨rs ++ new, ⟨?_, hrise, fun i row r hrow hr => ?_, fun i row hrow hi => ?_, fun row hrow => ?_⟩,
    ?_, hlatest⟩
  · rw [List.length_append, List.length_map]
    omega
  · rw [List.getElem?_map] at hrow
    obtain ⟨old, hold, rfl⟩ := Option.map_eq_some_iff.1 hrow
    rw [event_fillRow]
    by_cases hi : i < rs.length
    · rw [List.getElem?_append_left hi] at hr
      obtain ⟨⟨v, hv, hread⟩, hminted⟩ := h.slot i old r hold hr
      exact ⟨⟨v, by rw [fillRow_of_some hv, hv], hread⟩, hminted⟩
    · obtain ⟨j, rfl⟩ := Nat.exists_eq_add_of_le (Nat.le_of_not_lt hi)
      rw [List.getElem?_append_right (Nat.le_add_right _ _), Nat.add_sub_cancel_left] at hr
      obtain ⟨w, hw, hid, hvalue⟩ := fills_getElem? hst hwritten hold hr
      have hmintsj : MintedAs api m ctxId (rs.length + j) old.event r :=
        hmints j old.event r (by rw [List.getElem?_map, List.getElem?_drop, hold]; rfl) hr
      obtain ⟨v, hv, hr'⟩ := hmintsj
      have hwhole := hrise.whole r (List.mem_append_right _ (List.mem_of_getElem? hr))
      refine ⟨⟨w.2, ?_, (hm m hmint).readsBack hr' hwhole hvalue⟩, m, hmint, v, hv, hr'⟩
      rw [fillRow_of_none (h.ctx old (List.mem_of_getElem? hold)) (h.empty _ old hold (by omega)), ← hid]
      exact lookup_of_getElem? hnodup hw
  · have hlt := (List.getElem?_eq_some_iff.1 hrow).1
    rw [List.length_map] at hlt
    rw [List.length_append] at hi
    omega
  · obtain ⟨old, hold, rfl⟩ := List.mem_map.1 hrow
    rw [event_fillRow]
    exact h.ctx old hold
  · rw [List.length_append]
    omega

omit hm in
theorem Receipted.concat_none (hctx : row.event.ctxId = ctxId)
    (hnone : row.receipt = none) : Receipted api minters ctxId createdAt (rows ++ [row]) rs := by
  have hle := h.le
  refine ⟨by simp; omega, h.rising, fun i row' r hrow hr => ?_, fun i row' hrow hi => ?_, ?_⟩
  · have hi := (List.getElem?_eq_some_iff.1 hr).1
    rw [List.getElem?_append_left (by omega)] at hrow
    exact h.slot i row' r hrow hr
  · rcases Nat.lt_or_ge i rows.length with hlt | hge
    · rw [List.getElem?_append_left hlt] at hrow
      exact h.empty i row' hrow hi
    · rw [List.getElem?_append_right hge] at hrow
      rw [← List.mem_singleton.1 (List.mem_of_getElem? hrow)] at hnone
      exact hnone
  · simpa [or_imp, forall_and] using ⟨h.ctx, hctx⟩

omit hm in
theorem Receipted.concat (hfull : rs.length = rows.length) (hrise : Rising createdAt (rs ++ [r]))
    (hctx : row.event.ctxId = ctxId) {v : Json}
    (hv : row.receipt = some v) (hread : api.eventReceiptFromValue v = .ok r)
    (hmints : ∃ m, minters m ∧ MintedAs api m ctxId rows.length row.event r) :
    Receipted api minters ctxId createdAt (rows ++ [row]) (rs ++ [r]) := by
  refine ⟨by simp [hfull], hrise, fun i row' r' hrow hr => ?_, fun i row' hrow hi => ?_, ?_⟩
  · rcases Nat.lt_or_ge i rows.length with hlt | hge
    · rw [List.getElem?_append_left hlt] at hrow
      rw [List.getElem?_append_left (by omega)] at hr
      exact h.slot i row' r' hrow hr
    · have hi := (List.getElem?_eq_some_iff.1 hrow).1
      rw [List.length_append, List.length_singleton] at hi
      obtain rfl : i = rows.length := by omega
      rw [List.getElem?_append_right le_rfl, Nat.sub_self] at hrow
      rw [List.getElem?_append_right (by omega), hfull, Nat.sub_self] at hr
      cases hrow
      cases hr
      exact ⟨⟨v, hv, hread⟩, hmints⟩
  · have hlt := (List.getElem?_eq_some_iff.1 hrow).1
    simp only [List.length_append, List.length_singleton] at hi hlt
    omega
  · simpa [or_imp, forall_and] using ⟨h.ctx, hctx⟩

omit hm in
theorem Receipted.none_empty (hfull : rs.length = rows.length) : ∀ row ∈ rows, row.receipt ≠ none := by
  intro row hrow
  obtain ⟨i, hi⟩ := List.mem_iff_getElem?.1 hrow
  have hlt := (List.getElem?_eq_some_iff.1 hi).1
  obtain ⟨⟨v, hv, -⟩, -⟩ := h.slot i row _ hi (List.getElem?_eq_getElem (by omega))
  rw [hv]
  simp

end

end Receipted

/-! ## Steps -/

variable {seen : Db → Prop} {db' : Db}

variable {draw : LifecycleDraw} {a : EventAppend}

theorem Planned.cases {event : LifecycleEvent} {db : Db} (h : Planned st event draw db a) :
    ∃ row, db.context? event.ctxId = some row ∧
      (st.eventReceiptMinter = none ∧ a.fills = [] ∧ a.receipt = none ∨
        ∃ m plan w, st.eventReceiptMinter = some m ∧
          planEventReceipts st.api m event.ctxId row.body.createdAt
            (eventSlots st.api (db.events event.ctxId)) event draw.now = .ok plan ∧
          List.Forall₂ (st.Fills (eventSlots st.api (db.events event.ctxId))) plan.fills a.fills ∧
          a.receipt = some w ∧ st.api.receiptValue plan.new = .ok w) := by
  obtain ⟨row, plan, hrow, hplan, hfills, hreceipt⟩ := h
  refine ⟨row, hrow, ?_⟩
  unfold SqlStore.receiptPlan at hplan
  split at hplan
  · next m hm =>
    cases hp : planEventReceipts st.api m event.ctxId row.body.createdAt
      (eventSlots st.api (db.events event.ctxId)) event draw.now with
    | error e => rw [hp] at hplan; cases hplan
    | ok p =>
      rw [hp] at hplan
      cases hplan
      cases hw : st.api.receiptValue p.new with
      | error e => simp [hw, Functor.map, Except.map] at hreceipt
      | ok w =>
        have hreceipt : some w = a.receipt := by
          simpa [hw, Functor.map, Except.map] using hreceipt
        exact .inr ⟨m, p, w, hm, hp, hfills, hreceipt.symm, hw⟩
  · next hm =>
    cases hplan
    exact .inl ⟨hm, List.forall₂_nil_left_iff.1 hfills, (mapM_receipt_ok hreceipt).2 rfl⟩

def Db.Complete (db : Db) (ctxId : String) : Prop := ∀ row ∈ db.events ctxId, row.receipt ≠ none

/-- What appends and sweeps keep. -/
structure ReceiptsInOrder (api : AcdpApi) (minters : EventReceiptMinter → Prop) (db : Db) : Prop where
  known : ∀ ctxId, db.context? ctxId = none → db.events ctxId = []
  ids : ∀ ctxId, ((db.events ctxId).map (·.event.eventId)).Nodup
  receipted : ∀ ctxId row, db.context? ctxId = some row →
    ∃ rs, Receipted api minters ctxId row.body.createdAt (db.events ctxId) rs

theorem CommitStep.lifecycleEvents {call : Call} {a : CallDone}
    (h : CommitStep seen call db db' a) (hcall : ∀ st event draw, call ≠ .lifecycle st event draw) :
    db'.lifecycleEvents = db.lifecycleEvents := by
  cases h with
  | publish => rfl
  | event => exact absurd rfl (hcall _ _ _)
  | evict => rfl

variable {ctxId : String} {call : SweptCall}

section Swept

variable (h : SweptStep seen call db db')
include h

theorem SweptStep.keeps_row {row : ContextRow} (hrow : db.context? ctxId = some row) :
    ∃ row', db'.context? ctxId = some row' ∧ SameRow row row' := by
  cases h with
  | other hstep => exact hstep.keeps_row hrow
  | event => exact find?_update_row (by exact fun _ => ⟨rfl, rfl, rfl, id⟩) hrow
  | sweep => exact ⟨row, hrow, .refl row⟩

/-- What a step does to the events of the contexts: it fills in receipts of one context, and an append
    adds a row to it. -/
theorem SweptStep.events : ∃ ctxId written new,
      (∀ c, db'.events c = (db.events c).map (fillRow ctxId written) ++ if ctxId = c then new else []) ∧
      (new = [] ∨ ∃ st event draw row, call = .call (.lifecycle st event draw) ∧ event.ctxId = ctxId ∧
        new = [row] ∧ row.event.eventId ∉ (db.events ctxId).map (·.event.eventId) ∧
        db.context? ctxId ≠ none) := by
  cases h with
  | other hstep hother =>
    refine ⟨"", [], [], fun c => ?_, .inl rfl⟩
    rw [← fillReceipts_eq, ite_self, List.append_nil, Db.events, hstep.lifecycleEvents hother]
    rfl
  | @event st event draw _ a happ _ =>
    refine ⟨a.event.ctxId, a.fills, [a.row], Db.events_applyEvent db a, .inr ⟨st, event, draw, a.row, rfl,
      congrArg _ happ.isEvent.symm, rfl, fun hmem => ?_, ?_⟩⟩
    · obtain ⟨old, hold, hid⟩ := List.mem_map.1 hmem
      rw [happ.isEvent] at hold
      exact happ.newId old hold (hid.trans (congrArg LifecycleEvent.eventId happ.isEvent :))
    · obtain ⟨row, hrow, -⟩ := happ.row
      rw [happ.isEvent, hrow]
      simp
  | @sweep st ctxId now _ written _ =>
    refine ⟨ctxId, written, [], fun c => ?_, .inl rfl⟩
    rw [Db.events_fill, ite_self, List.append_nil]

theorem SweptStep.kept (hrow : (db.events c)[i]? = some row) (hv : row.receipt ≠ none) :
    (db'.events c)[i]? = some row := by
  obtain ⟨ctxId, written, new, hevents, -⟩ := h.events
  obtain ⟨v, hv⟩ := Option.ne_none_iff_exists'.1 hv
  have hi := (List.getElem?_eq_some_iff.1 hrow).1
  rw [hevents, List.getElem?_append_left (by simpa using hi), List.getElem?_map, hrow]
  exact congrArg some (fillRow_of_some hv)

theorem SweptStep.complete (hc : db.Complete c)
    (hcall : ∀ st event draw, call = .call (.lifecycle st event draw) → event.ctxId ≠ c) :
    db'.Complete c := by
  obtain ⟨ctxId, written, new, hevents, hnew⟩ := h.events
  have hnone : (if ctxId = c then new else []) = [] := by
    rcases hnew with rfl | ⟨st, event, draw, row, hc', rfl, -⟩
    · exact ite_self _
    · rw [if_neg (hcall st event draw hc')]
  intro row hrow
  rw [hevents, hnone, List.append_nil] at hrow
  obtain ⟨old, hold, rfl⟩ := List.mem_map.1 hrow
  obtain ⟨v, hv⟩ := Option.ne_none_iff_exists'.1 (hc old hold)
  rw [fillRow_of_some hv]
  exact hc old hold

theorem SweptStep.unknown (hc : db.context? c = none) (hnone : db.events c = []) : db'.events c = [] := by
  obtain ⟨ctxId, written, new, hevents, hnew⟩ := h.events
  rw [hevents, hnone]
  rcases hnew with rfl | ⟨-, -, -, row, -, -, -, -, hne⟩
  · exact ite_self _
  · rw [if_neg fun heq : ctxId = c => hne (heq ▸ hc)]
    rfl

end Swept

/-- The context whose receipts the call, once committed, leaves complete. -/
def SweptCall.completes : SweptCall → Option String
  | .call (.lifecycle st event _) => if st.minting then some event.ctxId else none
  | .call _ => none
  | .backfill _ ctxId _ => some ctxId

section Steps

variable {api : AcdpApi} {minters : EventReceiptMinter → Prop}
  (hm : ∀ m, minters m → MinterFaithful api m)
  (hstored : ∀ e, api.eventValue (SqlStore.storedEvent e) = api.eventValue e)

include hm hstored in
theorem Receipted.applyEvent (hst : st.api = api)
    (hmint : ∀ m, st.eventReceiptMinter = some m → minters m)
    (hisEvent : a.event = event) {row : ContextRow}
    (hrow : db.context? event.ctxId = some row) (hplan : Planned st event draw db a)
    (hids : ((db.events event.ctxId).map (·.event.eventId)).Nodup)
    (h : Receipted api minters event.ctxId row.body.createdAt (db.events event.ctxId) rs) :
    ∃ rs', Receipted api minters event.ctxId row.body.createdAt ((db.applyEvent a).events event.ctxId) rs' ∧
      (st.minting = true → rs'.length = ((db.applyEvent a).events event.ctxId).length) := by
  subst hst hisEvent
  have hrowctx : a.row.event.ctxId = a.event.ctxId := rfl
  obtain ⟨row', hrow', hcases⟩ := hplan.cases
  obtain rfl : row = row' := Option.some.inj (hrow.symm.trans hrow')
  rw [Db.events_applyEvent, if_pos rfl]
  rcases hcases with ⟨hnone, hfills, hreceipt⟩ | ⟨m, plan, w, hminter, hplan, hfills, hreceipt, hw⟩
  · rw [hfills, ← fillReceipts_eq]
    exact ⟨rs, h.concat_none hrowctx hreceipt, by simp [SqlStore.minting, hnone]⟩
  · obtain ⟨last, v, hv, hnew, hlast⟩ := planEventReceipts_ok hplan
    rw [h.hasHole hm, if_neg Bool.false_ne_true] at hlast
    obtain ⟨rs', h', hlen, hlatest⟩ := h.fill hm rfl (hmint m hminter) hids hlast hfills
    have hat := (hm m (hmint m hminter)).keeps hnew
    have hrise := (h'.rising.concat hlatest hat).1
    have hwhole := hrise.whole plan.new (by simp)
    rw [← hat] at hnew
    refine ⟨rs' ++ [plan.new], h'.concat (by simp [hlen]) hrise hrowctx hreceipt
      ((hm m (hmint m hminter)).readsBack hnew hwhole hw) ⟨m, hmint m hminter, v, ?_, ?_⟩, ?_⟩
    · exact (hstored a.event).trans hv
    · rw [List.length_map]
      rwa [eventSlots, List.length_mapIdx] at hnew
    · simp [hlen]

include hm in
theorem Receipted.sweep (hst : st.api = api)
    (hmint : ∀ m, st.eventReceiptMinter = some m → minters m) {now : ℤ}
    (hsweep : Sweeps st ctxId now db written) {row : ContextRow}
    (hrow : db.context? ctxId = some row) (hids : ((db.events ctxId).map (·.event.eventId)).Nodup)
    (h : Receipted api minters ctxId row.body.createdAt (db.events ctxId) rs) :
    ∃ rs', Receipted api minters ctxId row.body.createdAt ((db.fill ctxId written).events ctxId) rs' ∧
      rs'.length = ((db.fill ctxId written).events ctxId).length := by
  subst hst
  obtain ⟨m, row', fills, hminter, hrow', hplan, hfills⟩ := hsweep
  obtain rfl : row = row' := Option.some.inj (hrow.symm.trans hrow')
  unfold planBackfill at hplan
  rw [h.hasHole hm, if_neg Bool.false_ne_true] at hplan
  obtain ⟨⟨fills', last⟩, hnulls, hplan⟩ := except_bind_ok.1 hplan
  have hplan := Except.ok.inj hplan
  split at hplan
  · cases hplan
  · cases hplan
    obtain ⟨rs', h', hlen, -⟩ := h.fill hm rfl (hmint m hminter) hids hnulls hfills
    rw [Db.events_fill]
    exact ⟨rs', h', by simp [hlen]⟩

section Step

variable (h : ReceiptsInOrder api minters db) (hs : SweptStep seen call db db')
  (hapi : call.store.api = api) (hmint : ∀ m, call.store.eventReceiptMinter = some m → minters m)

include hm hstored h hs hapi hmint

theorem ReceiptsInOrder.receipted_step {row : ContextRow} (hrow : db.context? c = some row) :
    ∃ rs, Receipted api minters c row.body.createdAt (db'.events c) rs ∧
      (call.completes = some c → rs.length = (db'.events c).length) := by
  obtain ⟨rs, hrs⟩ := h.receipted c row hrow
  cases hs with
  | @other call _ _ _ hstep hother =>
    have hsame : db'.events c = db.events c := by rw [Db.events, hstep.lifecycleEvents hother]; rfl
    refine ⟨rs, hsame ▸ hrs, fun hc => ?_⟩
    cases call with
    | lifecycle => exact absurd rfl (hother _ _ _)
    | _ => cases hc
  | @event st event draw _ a happ hplan =>
    by_cases hc : event.ctxId = c
    · subst hc
      obtain ⟨rs', hrs', hlen⟩ := hrs.applyEvent hm hstored hapi hmint happ.isEvent hrow hplan (h.ids _)
      exact ⟨rs', hrs', fun hcomp => hlen (by simpa [SweptCall.completes] using hcomp :)⟩
    · have hne : a.event.ctxId ≠ c := by rwa [happ.isEvent]
      rw [Db.events_applyEvent, if_neg hne, List.append_nil, map_fillRow_of_ne (Ne.symm hne)]
      exact ⟨rs, hrs, fun hcomp => by simp [SweptCall.completes, hc] at hcomp⟩
  | @sweep st ctxId now _ written hsweep =>
    by_cases hc : ctxId = c
    · subst hc
      obtain ⟨rs', hrs', hlen⟩ := hrs.sweep hm hapi hmint hsweep hrow (h.ids _)
      exact ⟨rs', hrs', fun _ => hlen⟩
    · rw [Db.events_fill, map_fillRow_of_ne (Ne.symm hc)]
      exact ⟨rs, hrs, fun hcomp => absurd (Option.some.inj hcomp) hc⟩

theorem ReceiptsInOrder.completed (hc : call.completes = some c) : db'.Complete c := by
  cases hrow : db.context? c with
  | none =>
    intro row hmem
    rw [hs.unknown hrow (h.known c hrow)] at hmem
    cases hmem
  | some row =>
    obtain ⟨rs, hrs, hlen⟩ := h.receipted_step hm hstored hs hapi hmint hrow
    exact hrs.none_empty (hlen hc)

theorem ReceiptsInOrder.step : ReceiptsInOrder api minters db' := by
  obtain ⟨ctxId, written, new, hevents, hnew⟩ := hs.events
  refine ⟨fun c hc => ?_, fun c => ?_, fun c row' hrow' => ?_⟩
  · cases hrow : db.context? c with
    | none => exact hs.unknown hrow (h.known c hrow)
    | some row =>
      obtain ⟨row', hrow', -⟩ := hs.keeps_row hrow
      rw [hc] at hrow'
      cases hrow'
  · have hids : ((db.events c).map (fillRow ctxId written)).map (·.event.eventId) =
        (db.events c).map (·.event.eventId) := by
      rw [List.map_map]
      exact List.map_congr_left fun row _ => congrArg _ event_fillRow
    rw [hevents, List.map_append, hids]
    rcases hnew with rfl | ⟨-, -, -, row, -, -, rfl, hfresh, -⟩
    · rw [ite_self, List.map_nil, List.append_nil]
      exact h.ids c
    · by_cases hc : ctxId = c
      · subst hc
        rw [if_pos rfl]
        simpa [List.concat_eq_append] using (h.ids ctxId).concat hfresh
      · rw [if_neg hc, List.map_nil, List.append_nil]
        exact h.ids c
  · cases hrow : db.context? c with
    | none =>
      rw [hs.unknown hrow (h.known c hrow)]
      exact ⟨[], receipted_nil⟩
    | some row =>
      obtain ⟨row'', hrow'', hsame⟩ := hs.keeps_row hrow
      obtain rfl : row' = row'' := Option.some.inj (hrow'.symm.trans hrow'')
      obtain ⟨rs, hrs, -⟩ := h.receipted_step hm hstored hs hapi hmint hrow
      exact ⟨rs, hsame.body ▸ hrs⟩

end Step

end Steps

/-! ## Holes -/

theorem Sweeps.found {now : ℤ} (h : Sweeps st ctxId now db written) :
    StoredReceipt.hasHole false ((eventSlots st.api (db.events ctxId)).map Prod.snd) = false ∧
      ¬db.Complete ctxId := by
  obtain ⟨m, row, fills, -, -, hplan, -⟩ := h
  unfold planBackfill at hplan
  split at hplan
  · cases hplan
  · next hhole =>
    refine ⟨by simpa using hhole, fun hcomplete => ?_⟩
    have hfull : ∀ s ∈ eventSlots st.api (db.events ctxId), s.2 ≠ .null := by
      intro s hs hnull
      obtain ⟨i, hi⟩ := List.mem_iff_getElem?.1 hs
      rw [getElem?_eventSlots] at hi
      obtain ⟨row, hrow, rfl⟩ := Option.map_eq_some_iff.1 hi
      exact hcomplete row (List.mem_of_getElem? hrow) (StoredReceipt.decode_eq_null.1 hnull)
    rw [fillNulls_of_full hfull] at hplan
    cases hplan

theorem complete_of_planBackfill
    (h : planBackfill api m ctxId createdAt (eventSlots api (db.events ctxId)) now = .ok .complete) :
    db.Complete ctxId := by
  unfold planBackfill at h
  split at h
  · cases h
  · obtain ⟨⟨fills, last⟩, hfills, h⟩ := except_bind_ok.1 h
    have h := Except.ok.inj h
    split at h
    · next hempty =>
      obtain rfl := List.isEmpty_iff.1 hempty
      intro row hrow hnone
      obtain ⟨i, hi⟩ := List.mem_iff_getElem?.1 hrow
      refine fillNulls_eq_nil hfills (row.event, .null) (List.mem_of_getElem? (i := i) ?_) rfl
      rw [getElem?_eventSlots, hi, Option.map_some, StoredReceipt.decode_eq_null.2 hnone]
    · cases h

theorem hasHole_of_planBackfill (h : planBackfill api m ctxId createdAt prior now = .ok .hole) :
    StoredReceipt.hasHole false (prior.map Prod.snd) = true := by
  unfold planBackfill at h
  split at h
  · assumption
  · obtain ⟨_, -, h⟩ := except_bind_ok.1 h
    have h := Except.ok.inj h
    split at h <;> cases h

theorem Planned.hole (h : Planned st event draw db a)
    (hm : ∀ m, st.eventReceiptMinter = some m → MinterFaithful st.api m)
    (hhole : StoredReceipt.hasHole false
      ((eventSlots st.api (db.events event.ctxId)).map Prod.snd) = true) :
    a.fills = [] ∧ ∀ w, a.receipt = some w → ∃ r, st.api.receiptValue r = .ok w ∧
      ∀ slot ∈ eventSlots st.api (db.events event.ctxId), ∀ r', slot.2 = .valid r' →
        r'.acceptedAt ≤ r.acceptedAt := by
  obtain ⟨row, -, ⟨-, hfills, hreceipt⟩ | ⟨m, plan, w, hminter, hplan, hfills, hreceipt, hw⟩⟩ := h.cases
  · refine ⟨hfills, fun w hw => ?_⟩
    rw [hreceipt] at hw
    cases hw
  · obtain ⟨last, v, -, hnew, hlast⟩ := planEventReceipts_ok hplan
    rw [if_pos hhole] at hlast
    obtain ⟨hnil, rfl⟩ := hlast
    rw [hnil] at hfills
    refine ⟨List.forall₂_nil_left_iff.1 hfills, fun w' hw' => ?_⟩
    obtain rfl : w = w' := Option.some.inj (hreceipt.symm.trans hw')
    refine ⟨plan.new, hw, fun slot hslot r' hr' => ?_⟩
    obtain ⟨p, hp, hle⟩ := le_latestAcceptedAt hslot hr'
    rw [(hm m hminter).keeps hnew, hp]
    exact hle.trans (le_clampAcceptedAt _ _ p)

theorem ReceiptsInOrder.hasHole {minters : EventReceiptMinter → Prop}
    (hm : ∀ m, minters m → MinterFaithful api m) (h : ReceiptsInOrder api minters db) (c : String) :
    StoredReceipt.hasHole false ((eventSlots api (db.events c)).map Prod.snd) = false := by
  cases hrow : db.context? c with
  | none =>
    rw [h.known c hrow]
    rfl
  | some row =>
    obtain ⟨rs, hrs⟩ := h.receipted c row hrow
    exact hrs.hasHole hm

/-! ## Runs -/

/-- The slots of a context as they should be: receipts, each for its event and index, in order; then
    empty slots. -/
structure SlotsInOrder (api : AcdpApi) (minters : EventReceiptMinter → Prop) (ctxId : String)
    (createdAt : ℤ) (slots : List EventSlot) : Prop where
  blocks : ∃ (rs : List EventReceipt) (k : ℕ),
    slots.map Prod.snd = rs.map .valid ++ List.replicate k .null ∧ Rising createdAt rs
  bound : ∀ i e r, slots[i]? = some (e, .valid r) →
    r.ctxId = ctxId ∧ r.eventId = e.eventId ∧ r.index = i ∧ ∃ m, minters m ∧ MintedAs api m ctxId i e r

theorem Receipted.slotsInOrder {minters : EventReceiptMinter → Prop}
    {createdAt : ℤ} {rows : List LifecycleEventRow}
    (hm : ∀ m, minters m → MinterFaithful api m) (h : Receipted api minters ctxId createdAt rows rs) :
    SlotsInOrder api minters ctxId createdAt (eventSlots api rows) := by
  refine ⟨⟨rs, _, h.slots hm, h.rising⟩, fun i e r hslot => ?_⟩
  rw [getElem?_eventSlots] at hslot
  obtain ⟨row, hrow, hslot⟩ := Option.map_eq_some_iff.1 hslot
  obtain ⟨rfl, hdecode⟩ := Prod.mk.inj hslot
  rcases Nat.lt_or_ge i rs.length with hlt | hge
  · have hr := List.getElem?_eq_getElem hlt
    rw [h.decode hm hrow hr] at hdecode
    cases hdecode
    obtain ⟨-, m, hmint, v, hv, hr'⟩ := h.slot i row _ hrow hr
    obtain ⟨hctx, hid, hindex⟩ := (hm m hmint).binds hv hr'
    exact ⟨hctx, hid, hindex, m, hmint, v, hv, hr'⟩
  · rw [h.empty i row hrow hge] at hdecode
    cases hdecode

section Runs

variable {ι : Type} {call : ι → SweptCall} (S : SweptSchedule call)

theorem sweep_end {i : ι} {now : ℤ}
    (hcall : call i = .backfill st ctxId now) {e : SweepExit} (he : S.result i = .error (.inr e))
    (hends : ∀ k, S.moment i k ≤ S.finish i) :
    (e = .complete → (S.db (S.finish i)).Complete ctxId) ∧
    (e = .skipped → (S.db (S.moment i 1)).context? ctxId = none ∨ StoredReceipt.hasHole false
      ((eventSlots st.api ((S.db (S.finish i)).events ctxId)).map Prod.snd) = true) := by
  have hst : ∀ k r, (S.done (fun i => (call i).tx) i).Held k r →
      Db.part r (S.db (S.moment i k)) = Db.part r (S.db (S.finish i)) := by
    rintro k r ⟨k', hk', l, hl, hr⟩
    exact S.stable_of_lock (fun j => sweptCall_safe (call j)) hl hr (S.ordered i hk') (hends k) le_rfl
  have hrun : S.attempt (fun i => (call i).tx) i =
      (.error (.inr e), S.done (fun i => (call i).tx) i) := Prod.ext he rfl
  simp only [Interleaving.attempt, hcall, SweptCall.tx] at hrun
  obtain ⟨e', htx, he'⟩ := Tx.mapEnd_error.1 hrun
  cases he'
  rcases backfillTx_error htx hst with rfl | ⟨err, rfl⟩ | ⟨rfl, hnone⟩ |
    ⟨m, row, plan, -, hplan, ⟨rfl, rfl⟩ | ⟨rfl, rfl⟩⟩
  · exact ⟨nofun, nofun⟩
  · exact ⟨nofun, nofun⟩
  · exact ⟨nofun, fun _ => .inl hnone⟩
  · exact ⟨fun _ => complete_of_planBackfill hplan, nofun⟩
  · exact ⟨nofun, fun _ => .inr (hasHole_of_planBackfill hplan)⟩

def ReplicaMinter (call : ι → SweptCall) (m : EventReceiptMinter) : Prop :=
  ∃ i, (call i).store.eventReceiptMinter = some m

theorem receipts_in_order (hapi : ∀ i, (call i).store.api = api)
    (hm : ∀ i m, (call i).store.eventReceiptMinter = some m → MinterFaithful api m)
    (hstored : ∀ e, api.eventValue (SqlStore.storedEvent e) = api.eventValue e)
    (h0 : (S.db 0).lifecycleEvents = []) (n : ℕ) :
    ReceiptsInOrder api (ReplicaMinter call) (S.db n) := by
  refine S.keeps ?_ (fun n i hn hI => ?_) n
  · have hnone : ∀ c, (S.db 0).events c = [] := fun c => by rw [Db.events, h0]; rfl
    refine ⟨fun c _ => hnone c, fun c => ?_, fun c row _ => ⟨[], ?_⟩⟩
    · rw [hnone c]
      exact List.nodup_nil
    · rw [hnone c]
      exact receipted_nil
  · have hfaithful : ∀ m, ReplicaMinter call m → MinterFaithful api m := by
      rintro m ⟨j, hj⟩
      exact hm j m hj
    exact (hI n le_rfl).step hfaithful hstored (swept_step S hn) (hapi i) fun m hmi => ⟨i, hmi⟩

theorem receipt_kept {m n : ℕ} (hmn : m ≤ n)
    (hrow : ((S.db m).events c)[i]? = some row) (hv : row.receipt ≠ none) :
    ((S.db n).events c)[i]? = some row := by
  exact S.kept (I := fun db => (db.events c)[i]? = some row) hmn hrow
    fun t j _ _ hj h => (swept_step S hj).kept h hv

theorem complete_kept {m n : ℕ} (hmn : m ≤ n) (hc : (S.db m).Complete c)
    (happend : ∀ t i st event draw, m ≤ t → t < n → S.commits t = some i →
      call i = .call (.lifecycle st event draw) → event.ctxId ≠ c) : (S.db n).Complete c := by
  exact S.kept (I := fun db => db.Complete c) hmn hc fun t i hmt htn hi h =>
    (swept_step S hi).complete h fun st event draw => happend t i st event draw hmt htn hi

/-- **Event receipts stay in order.**  In every interleaving of appends by minting and non-minting
    replicas and of sweeps: a receipt is never overwritten, a list with a hole is not filled, and from
    contexts without events each context's slots are receipts in order, bound to their events, and then
    empty slots; none are empty after a minting append or a sweep. -/
theorem event_receipts_in_order {api : AcdpApi} (hapi : ∀ i, (call i).store.api = api)
    (hm : ∀ i m, (call i).store.eventReceiptMinter = some m → MinterFaithful api m)
    (hstored : ∀ e, api.eventValue (SqlStore.storedEvent e) = api.eventValue e) :
    (∀ m n c (k : ℕ) (row : LifecycleEventRow), m ≤ n → ((S.db m).events c)[k]? = some row →
      row.receipt ≠ none → ((S.db n).events c)[k]? = some row) ∧
    (∀ n i c, S.commits n = some i →
      StoredReceipt.hasHole false ((eventSlots api ((S.db n).events c)).map Prod.snd) = true →
      (∀ st now, call i ≠ .backfill st c now) ∧
      ∀ st event draw, call i = .call (.lifecycle st event draw) → event.ctxId = c →
        ∃ new, (S.db (n + 1)).events c = (S.db n).events c ++ [new] ∧
          ∀ w, new.receipt = some w → ∃ r, api.receiptValue r = .ok w ∧
            ∀ slot ∈ eventSlots api ((S.db n).events c), ∀ r', slot.2 = .valid r' →
              r'.acceptedAt ≤ r.acceptedAt) ∧
    (∀ m n j st c now, m ≤ n → call j = .backfill st c now → (S.db m).Complete c →
      (∀ t i st event draw, m ≤ t → t < n → S.commits t = some i →
        call i = .call (.lifecycle st event draw) → event.ctxId ≠ c) → S.commits n ≠ some j) ∧
    ((S.db 0).lifecycleEvents = [] →
      (∀ n c row, (S.db n).context? c = some row →
        SlotsInOrder api (ReplicaMinter call) c row.body.createdAt (eventSlots api ((S.db n).events c))) ∧
      (∀ n i st event draw, S.commits n = some i → call i = .call (.lifecycle st event draw) →
        st.minting = true → (S.db (n + 1)).Complete event.ctxId) ∧
      (∀ n i st c now, S.commits n = some i → call i = .backfill st c now →
        (S.db (n + 1)).Complete c) ∧
      (∀ i st c now e, call i = .backfill st c now → S.result i = .error (.inr e) →
        (∀ k, S.moment i k ≤ S.finish i) → (e = .complete → (S.db (S.finish i)).Complete c) ∧
          (e = .skipped → (S.db (S.moment i 1)).context? c = none))) := by
  refine ⟨fun m n c k row hmn hrow hv => receipt_kept S hmn hrow hv, fun n i c hn hhole => ?_,
    fun m n j st c now hmn hj hc happend hn => ?_, fun h0 => ?_⟩
  · have hs := swept_step S hn
    generalize S.db (n + 1) = db' at hs ⊢
    constructor
    · intro st now hcall
      have hst := hapi i
      rw [hcall] at hs hst
      cases hs with
      | sweep hsweep =>
        have hno := hsweep.found.1
        rw [show st.api = api from hst, hhole] at hno
        cases hno
    · rintro st event draw hcall rfl
      have hst := hapi i
      have hmi := hm i
      rw [hcall] at hs hst hmi
      subst hst
      cases hs with
      | other _ hother => exact absurd rfl (hother _ _ _)
      | @event _ _ _ _ a happ hplan =>
        obtain ⟨hfills, hnew⟩ := hplan.hole hmi hhole
        refine ⟨a.row, ?_, hnew⟩
        rw [Db.events_applyEvent, hfills, ← fillReceipts_eq, if_pos (congrArg _ happ.isEvent)]
        rfl
  · have hcomplete := complete_kept S hmn hc happend
    have hs := swept_step S hn
    rw [hj] at hs
    generalize S.db (n + 1) = db' at hs
    cases hs with
    | sweep hsweep => exact hsweep.found.2 hcomplete
  · have horder := receipts_in_order S hapi hm hstored h0
    have hmin : ∀ m, ReplicaMinter call m → MinterFaithful api m := fun m ⟨i, hi⟩ => hm i m hi
    have hcomp : ∀ n i c, S.commits n = some i → (call i).completes = some c →
        (S.db (n + 1)).Complete c := fun n i c hn =>
      (horder n).completed hmin hstored (swept_step S hn) (hapi i) fun m hmi => ⟨i, hmi⟩
    refine ⟨fun n c row hrow => ?_, fun n i st event draw hn hcall hminting => ?_,
      fun n i st c now hn hcall => ?_, fun i st c now e hcall he hends => ?_⟩
    · obtain ⟨rs, hrs⟩ := (horder n).receipted c row hrow
      exact hrs.slotsInOrder hmin
    · exact hcomp n i _ hn (by simp [hcall, SweptCall.completes, hminting])
    · exact hcomp n i c hn (by rw [hcall]; rfl)
    · obtain ⟨hcomplete, hskipped⟩ := sweep_end S hcall he hends
      refine ⟨hcomplete, fun hskip => (hskipped hskip).resolve_right ?_⟩
      have hst := hapi i
      rw [hcall] at hst
      rw [show st.api = api from hst, (horder _).hasHole hmin c]
      simp

end Runs

def Sample.eventMinter : EventReceiptMinter := fun ctxId value index acceptedAt =>
  match value with
  | .string eventId => .ok ⟨ctxId, eventId, index, acceptedAt, ""⟩
  | _ => .error (.registryInternal "event")

theorem Sample.eventMinter_faithful : MinterFaithful Sample.api Sample.eventMinter := by
  have hmint : ∀ {ctxId v i t r}, Sample.eventMinter ctxId v i t = .ok r →
      ∃ eventId, v = .string eventId ∧ r = ⟨ctxId, eventId, i, t, ""⟩ := by
    intro ctxId v i t r h
    unfold Sample.eventMinter at h
    split at h
    · cases h
      exact ⟨_, rfl, rfl⟩
    · cases h
  refine ⟨fun h => ?_, fun hv h => ?_, fun h _ hw => ?_⟩
  · obtain ⟨_, -, rfl⟩ := hmint h
    rfl
  · obtain ⟨_, rfl, rfl⟩ := hmint h
    cases hv
    exact ⟨rfl, rfl, rfl⟩
  · obtain ⟨_, -, rfl⟩ := hmint h
    cases hw
    rfl

/-- A retraction without a receipt, a republication with one by a clock that is behind, and a sweep. -/
def sampleReceiptCalls : Fin 4 → SweptCall := fun i =>
  let plain : SqlStore := { dialect := .sqlite, api := Sample.api }
  let minting : SqlStore := { plain with eventReceiptMinter := some Sample.eventMinter }
  if (i : ℕ) = 0 then
    .call (.publish plain { req := Sample.request "agent" "hash1", authority := "registry" }
      { now := 10 ^ 7, ctxId := "ctx1" })
  else if (i : ℕ) = 1 then
    .call (.lifecycle plain
      { eventId := "e1", ctxId := "ctx1", eventType := .retracted, occurredAt := 10 ^ 6, actor := "agent" }
      { now := 2 * 10 ^ 7 })
  else if (i : ℕ) = 2 then
    .call (.lifecycle minting
      { eventId := "e2", ctxId := "ctx1", eventType := .republished, occurredAt := 10 ^ 6, actor := "agent" }
      { now := 0 })
  else .backfill minting "ctx1" 0

def sampleReceipts : SweptSchedule sampleReceiptCalls := Schedule.serial _ {}

theorem event_receipts_in_order_sample :
    (sampleReceipts.db 3).Complete "ctx1" ∧ sampleReceipts.commits 3 ≠ some 3 ∧
      ((sampleReceipts.db 3).events "ctx1").length = 2 := by
  have hstore : ∀ i, (sampleReceiptCalls i).store.api = Sample.api ∧
      ∀ m, (sampleReceiptCalls i).store.eventReceiptMinter = some m → m = Sample.eventMinter := by
    intro i
    fin_cases i <;> simp [sampleReceiptCalls, SweptCall.store, Call.store]
  obtain ⟨-, -, hsecond, hfresh⟩ := event_receipts_in_order sampleReceipts (fun i => (hstore i).1)
    (fun i m hm => by rw [(hstore i).2 m hm]; exact Sample.eventMinter_faithful) (fun _ => rfl)
  obtain ⟨-, hmint, -⟩ := hfresh rfl
  have hcomplete : (sampleReceipts.db 3).Complete "ctx1" := hmint 2 2 _ _ _ (by decide) rfl rfl
  refine ⟨hcomplete, hsecond 3 3 3 _ _ _ le_rfl rfl hcomplete fun t i st event draw hm hn => ?_, by decide⟩
  omega

end AcdpRegistry
