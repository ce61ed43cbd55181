/-
  The request URI in logs (`redact_uri` in `acdp-registry-core/src/read_gate.rs`).

  A path segment or a parameter is masked if it leaks a read token: the token's first
  letters occur in it once it is decoded.  It is decoded as the value of a form, and a
  form ends a value at `&`, which a path segment can hold; and letters that follow a
  percent sign can be taken for an escape.  `redact_uri_iff` says for which URIs nothing
  of a token is left.
-/
import AcdpRegistry.Lib.Url
import AcdpRegistry.Store.Changes

namespace AcdpRegistry

open Lib Lib.Url

/-! ## URIs -/

def slash : UInt8 := 47
def questionMark : UInt8 := 63

/-- `http::Uri`, by the bytes of its path and query. -/
structure Uri where
  path : List UInt8
  query : Option (List UInt8) := none
  path_ends : questionMark ∉ path := by decide +kernel

/-- `READ_TOKEN_PREFIX`, `acdp_rt_`. -/
def readTokenPrefix : List UInt8 := [97, 99, 100, 112, 95, 114, 116, 95]

def accessToken : List UInt8 := [97, 99, 99, 101, 115, 115, 95, 116, 111, 107, 101, 110]

/-- `MASK`, `[redacted]`. -/
def mask : List UInt8 := [91, 114, 101, 100, 97, 99, 116, 101, 100, 93]

example : readTokenPrefix = utf8 "acdp_rt_" ∧ accessToken = utf8 "access_token" ∧
    mask = utf8 "[redacted]" := by decide +kernel

/-! ## Redaction -/

/-- `percent_decode`: the value of the first pair of the form `x=s`. -/
def percentDecode (s : List UInt8) : List UInt8 :=
  ((formParse (120 :: equalsSign :: s)).head?.map (·.2)).getD []

def leaks (s : List UInt8) : Bool := readTokenPrefix <:+: (percentDecode s).map lower

def paramName (pair : List UInt8) : List UInt8 := before equalsSign pair

def paramValue (pair : List UInt8) : List UInt8 := after equalsSign pair

def keyHits (k : List UInt8) : Bool := (percentDecode k).map lower = accessToken

def redactSegment (seg : List UInt8) : List UInt8 := if leaks seg then mask else seg

def masked (pair : List UInt8) : Bool :=
  keyHits (paramName pair) || leaks (paramName pair) || leaks (paramValue pair)

def redactPair (pair : List UInt8) : List UInt8 :=
  let k := paramName pair
  if masked pair then (if leaks k then mask else k) ++ equalsSign :: mask else pair

def redactUri (uri : Uri) : List UInt8 :=
  let path := [slash].intercalate ((uri.path.splitOn slash).map redactSegment)
  match uri.query with
  | none => path
  | some query =>
    path ++ questionMark :: [ampersand].intercalate ((query.splitOn ampersand).map redactPair)

/-! ## What a text shows -/

/-- The token's first letters occur in the text, in upper or lower case. -/
def Written (s : List UInt8) : Prop := readTokenPrefix <:+: s.map lower

/-- They do once the text is decoded. -/
def Decoded (s : List UInt8) : Prop := Written (unescape s)

instance (s : List UInt8) : Decidable (Written s) := inferInstanceAs (Decidable (_ <:+: _))

instance (s : List UInt8) : Decidable (Decoded s) := inferInstanceAs (Decidable (Written _))

def queryParams (query : Option (List UInt8)) : List (List UInt8) :=
  match query with
  | none => []
  | some query => query.splitOn ampersand

def pathOf (s : List UInt8) : List UInt8 := before questionMark s

def queryOf (s : List UInt8) : Option (List UInt8) :=
  if questionMark ∈ s then some (after questionMark s) else none

/-- The text shows nothing of a token: not its first letters, also decoded in a segment, a name or a
    value, and no `access_token` of the URI. -/
structure Clean (uri : Uri) (s : List UInt8) : Prop where
  written : ¬Written s
  segments : ∀ seg ∈ (pathOf s).splitOn slash, ¬Decoded seg
  names : ∀ pair ∈ queryParams (queryOf s), ¬Decoded (paramName pair)
  values : ∀ pair ∈ queryParams (queryOf s), ¬Decoded (paramValue pair)
  accessTokens : List.Forall₂ (fun pair pair' => keyHits (paramName pair) = true → paramValue pair' = mask)
    (queryParams uri.query) (queryParams (queryOf s))

/-! ## Masking -/

theorem percentDecode_eq (s : List UInt8) : percentDecode s = formDecode (before ampersand s) := by
  have hhead : ((120 :: equalsSign :: s).splitOn ampersand).head? =
      some (120 :: equalsSign :: before ampersand s) := by
    rw [head?_splitOn]
    rfl
  unfold percentDecode formParse
  cases hparts : (120 :: equalsSign :: s).splitOn ampersand with
  | nil => simp [hparts] at hhead
  | cons part parts =>
    obtain rfl : part = 120 :: equalsSign :: before ampersand s := by simpa [hparts] using hhead
    rfl

theorem leaks_iff (s : List UInt8) : leaks s = true ↔ Decoded (before ampersand s) := by
  rw [leaks, decide_eq_true_eq, percentDecode_eq]
  refine infix_formDecode ?_ (by decide) (by decide) (by decide) _
  simp [readTokenPrefix]

theorem leaks_iff_of_notMem {s : List UInt8} (h : ampersand ∉ s) : leaks s = true ↔ Decoded s := by
  rw [leaks_iff, before_of_notMem h]

theorem not_written_mask : ¬Written mask := by decide

theorem not_decoded_mask : ¬Decoded mask := by decide

theorem written_append_cons {c : UInt8} (hc : lower c ∉ readTokenPrefix) (xs ys : List UInt8) :
    Written (xs ++ c :: ys) ↔ Written xs ∨ Written ys := by
  unfold Written
  rw [List.map_append, List.map_cons]
  exact infix_append_cons_iff hc

theorem mem_append_cons_iff {b c : UInt8} (h : b ≠ c) (xs ys : List UInt8) :
    b ∈ xs ++ c :: ys ↔ b ∈ xs ∨ b ∈ ys := by
  simp [h]

theorem written_pair (pair : List UInt8) :
    Written pair ↔ Written (paramName pair) ∨ Written (paramValue pair) := by
  by_cases h : equalsSign ∈ pair
  · conv_lhs => rw [← before_append_after h]
    exact written_append_cons (by decide) _ _
  · have hempty : ¬Written [] := by decide
    rw [paramName, paramValue, before_of_notMem h, after_of_notMem h, or_iff_left hempty]

section Segments

variable {uri : Uri}

theorem written_redactSegment (seg : List UInt8) :
    Written (redactSegment seg) ↔ Written seg ∧ ¬leaks seg = true := by
  unfold redactSegment
  split
  · next h => simp [h, not_written_mask]
  · next h => simp [h]

theorem decoded_redactSegment (seg : List UInt8) :
    Decoded (redactSegment seg) ↔ Decoded seg ∧ ¬leaks seg = true := by
  unfold redactSegment
  split
  · next h => simp [h, not_decoded_mask]
  · next h => simp [h]

end Segments

section Pairs

variable {pair : List UInt8}

theorem notMem_before (c : UInt8) (s : List UInt8) : c ∉ before c s := fun h => by
  simpa using List.mem_takeWhile_imp h

theorem redactPair_parts (pair : List UInt8) :
    paramName (redactPair pair) = (if leaks (paramName pair) then mask else paramName pair) ∧
      paramValue (redactPair pair) = if masked pair then mask else paramValue pair := by
  unfold redactPair
  by_cases hmasked : masked pair = true
  · have hname : equalsSign ∉ if leaks (paramName pair) then mask else paramName pair := by
      split
      · decide
      · exact notMem_before _ _
    simp only [hmasked, if_true]
    exact before_append_cons hname mask
  · have hleaks : leaks (paramName pair) = false := by
      simp only [masked, Bool.or_eq_true, not_or] at hmasked
      simpa using hmasked.1.2
    simp [hmasked, hleaks]

theorem notMem_redactPair (h : ampersand ∉ pair) : ampersand ∉ redactPair pair := by
  unfold redactPair
  simp only
  split
  · rw [List.mem_append, List.mem_cons]
    rintro (hk | heq | hmask)
    · split at hk
      · exact absurd hk (by decide)
      · exact h ((List.takeWhile_prefix _).subset hk)
    · exact absurd heq (by decide)
    · exact absurd hmask (by decide)
  · exact h

end Pairs

/-! ## The text in the log -/

section Text

variable (uri : Uri)

def redactPath : List UInt8 := [slash].intercalate ((uri.path.splitOn slash).map redactSegment)

theorem segments_ne_nil : (uri.path.splitOn slash).map redactSegment ≠ [] := by
  simp [List.splitOn, List.splitOnP_ne_nil]

theorem questionMark_notMem_redactPath : questionMark ∉ redactPath uri := by
  have hiff : ∀ parts : List (List UInt8), parts ≠ [] →
      (questionMark ∈ [slash].intercalate parts ↔ ∃ part ∈ parts, questionMark ∈ part) :=
    fun parts h => intercalate_iff (P := (questionMark ∈ ·)) (mem_append_cons_iff (by decide)) h
  intro h
  obtain ⟨seg', hseg', h⟩ := (hiff _ (segments_ne_nil uri)).1 h
  obtain ⟨seg, hseg, rfl⟩ := List.mem_map.1 hseg'
  unfold redactSegment at h
  split at h
  · exact absurd h (by decide)
  · have hpath := (hiff (uri.path.splitOn slash) (List.ne_nil_of_mem hseg)).2 ⟨seg, hseg, h⟩
    rw [List.intercalate_splitOn] at hpath
    exact uri.path_ends hpath

theorem splitOn_redactPath :
    (redactPath uri).splitOn slash = (uri.path.splitOn slash).map redactSegment := by
  refine List.splitOn_intercalate slash ?_ (segments_ne_nil uri)
  intro seg' hseg'
  obtain ⟨seg, hseg, rfl⟩ := List.mem_map.1 hseg'
  unfold redactSegment
  split
  · decide
  · exact notMem_of_mem_splitOn hseg

theorem written_redactPath : Written (redactPath uri) ↔
    ∃ seg ∈ uri.path.splitOn slash, Written (redactSegment seg) := by
  rw [redactPath, intercalate_iff (written_append_cons (by decide)) (segments_ne_nil uri)]
  simp

theorem redactUri_parts :
    (pathOf (redactUri uri)).splitOn slash = (uri.path.splitOn slash).map redactSegment ∧
      queryParams (queryOf (redactUri uri)) = (queryParams uri.query).map redactPair ∧
      (Written (redactUri uri) ↔ (∃ seg ∈ uri.path.splitOn slash, Written (redactSegment seg)) ∨
        ∃ pair ∈ queryParams uri.query, Written (redactPair pair)) := by
  have hpath := questionMark_notMem_redactPath uri
  cases hquery : uri.query with
  | none =>
    have hout : redactUri uri = redactPath uri := by
      unfold redactUri
      rw [hquery]
      rfl
    rw [hout, pathOf, before_of_notMem hpath, queryOf, if_neg hpath, written_redactPath]
    exact ⟨splitOn_redactPath uri, rfl, by simp [queryParams]⟩
  | some query =>
    let pairs := (query.splitOn ampersand).map redactPair
    have hpairs : pairs ≠ [] := by simp [pairs, List.splitOn, List.splitOnP_ne_nil]
    have hout : redactUri uri = redactPath uri ++ questionMark :: [ampersand].intercalate pairs := by
      unfold redactUri
      rw [hquery]
      rfl
    obtain ⟨hbefore, hafter⟩ := before_append_cons hpath ([ampersand].intercalate pairs)
    have hsplit : ([ampersand].intercalate pairs).splitOn ampersand = pairs := by
      refine List.splitOn_intercalate ampersand ?_ hpairs
      intro pair' hpair'
      obtain ⟨pair, hpair, rfl⟩ := List.mem_map.1 hpair'
      exact notMem_redactPair (notMem_of_mem_splitOn hpair)
    rw [hout, pathOf, hbefore, queryOf, if_pos (by simp), hafter, written_append_cons (by decide),
      written_redactPath, intercalate_iff (written_append_cons (by decide)) hpairs]
    refine ⟨splitOn_redactPath uri, hsplit, ?_⟩
    simp [pairs, queryParams]

end Text

/-- What `redact_uri` must catch: a path segment with the letters has them decoded before its first
    `&`, and in a parameter percent signs do not hide them, unless it is masked for another reason. -/
structure Caught (uri : Uri) : Prop where
  segments : ∀ seg ∈ uri.path.splitOn slash, Written seg ∨ Decoded seg → Decoded (before ampersand seg)
  names : ∀ pair ∈ queryParams uri.query, Written (paramName pair) → Decoded (paramName pair)
  values : ∀ pair ∈ queryParams uri.query, Written (paramValue pair) →
    Decoded (paramValue pair) ∨ Decoded (paramName pair) ∨ keyHits (paramName pair) = true

theorem leaks_param {uri : Uri} {pair : List UInt8} (h : pair ∈ queryParams uri.query) :
    (leaks (paramName pair) = true ↔ Decoded (paramName pair)) ∧
      (leaks (paramValue pair) = true ↔ Decoded (paramValue pair)) := by
  have hpair : ampersand ∉ pair := by
    unfold queryParams at h
    split at h
    · exact absurd h List.not_mem_nil
    · exact notMem_of_mem_splitOn h
  refine ⟨leaks_iff_of_notMem fun hmem => hpair ((List.takeWhile_prefix _).subset hmem),
    leaks_iff_of_notMem fun hmem => hpair ?_⟩
  exact (List.dropWhile_suffix _).subset (List.mem_of_mem_tail hmem)

/-- **When the log shows nothing of a read token.**  `redact_uri` leaves no occurrence of the token's
    first letters, written or percent-encoded once, and masks every `access_token`, exactly if its
    decoding catches them. -/
theorem redact_uri_iff (uri : Uri) : Clean uri (redactUri uri) ↔ Caught uri := by
  obtain ⟨hsegs, hparams, hwritten⟩ := redactUri_parts uri
  have hpair : ∀ pair ∈ queryParams uri.query,
      (Written (paramName (redactPair pair)) ↔ Written (paramName pair) ∧ ¬Decoded (paramName pair)) ∧
      (Written (paramValue (redactPair pair)) ↔ Written (paramValue pair) ∧ ¬masked pair = true) := by
    intro pair hmem
    rw [(redactPair_parts pair).1, (redactPair_parts pair).2, ← (leaks_param hmem).1]
    constructor
    · split <;> simp_all [not_written_mask]
    · split <;> simp_all [not_written_mask]
  have hmasked : ∀ pair ∈ queryParams uri.query, masked pair = true ↔ Decoded (paramValue pair) ∨
      Decoded (paramName pair) ∨ keyHits (paramName pair) = true := by
    intro pair hmem
    rw [← (leaks_param hmem).1, ← (leaks_param hmem).2, masked]
    simp only [Bool.or_eq_true]
    tauto
  constructor
  · intro h
    refine ⟨fun seg hseg hshow => ?_, fun pair hmem hw => ?_, fun pair hmem hw => ?_⟩
    · rw [← leaks_iff]
      by_contra hleaks
      rcases hshow with hw | hd
      · exact h.written (hwritten.2 (.inl ⟨seg, hseg, (written_redactSegment seg).2 ⟨hw, hleaks⟩⟩))
      · refine h.segments (redactSegment seg) ?_ ((decoded_redactSegment seg).2 ⟨hd, hleaks⟩)
        rw [hsegs]
        exact List.mem_map_of_mem hseg
    · by_contra hd
      refine h.written (hwritten.2 (.inr ⟨pair, hmem, (written_pair _).2 (.inl ?_)⟩))
      exact (hpair pair hmem).1.2 ⟨hw, hd⟩
    · rw [← hmasked pair hmem]
      by_contra hnot
      refine h.written (hwritten.2 (.inr ⟨pair, hmem, (written_pair _).2 (.inr ?_)⟩))
      exact (hpair pair hmem).2.2 ⟨hw, hnot⟩
  · intro h
    refine ⟨fun hw => ?_, ?_, ?_, ?_, ?_⟩
    · rcases hwritten.1 hw with ⟨seg, hseg, hw⟩ | ⟨pair, hmem, hw⟩
      · obtain ⟨hw, hleaks⟩ := (written_redactSegment seg).1 hw
        exact hleaks ((leaks_iff seg).2 (h.segments seg hseg (.inl hw)))
      · rcases (written_pair _).1 hw with hw | hw
        · obtain ⟨hw, hd⟩ := (hpair pair hmem).1.1 hw
          exact hd (h.names pair hmem hw)
        · obtain ⟨hw, hnot⟩ := (hpair pair hmem).2.1 hw
          exact hnot ((hmasked pair hmem).2 (h.values pair hmem hw))
    · rw [hsegs]
      rintro _ hseg' hd
      obtain ⟨seg, hseg, rfl⟩ := List.mem_map.1 hseg'
      obtain ⟨hd, hleaks⟩ := (decoded_redactSegment seg).1 hd
      exact hleaks ((leaks_iff seg).2 (h.segments seg hseg (.inr hd)))
    · rw [hparams]
      rintro _ hmem' hd
      obtain ⟨pair, hmem, rfl⟩ := List.mem_map.1 hmem'
      rw [(redactPair_parts pair).1] at hd
      split at hd
      · exact not_decoded_mask hd
      · next hleaks => exact hleaks ((leaks_param hmem).1.2 hd)
    · rw [hparams]
      rintro _ hmem' hd
      obtain ⟨pair, hmem, rfl⟩ := List.mem_map.1 hmem'
      rw [(redactPair_parts pair).2] at hd
      split at hd
      · exact not_decoded_mask hd
      · next hnot => exact hnot ((hmasked pair hmem).2 (.inl hd))
    · rw [hparams, List.forall₂_map_right_iff, List.forall₂_same]
      intro pair hmem hkey
      rw [(redactPair_parts pair).2, if_pos ((hmasked pair hmem).2 (.inr (.inr hkey)))]

/-- A token after an `&` in a path segment, and one after a percent sign in the value of a parameter,
    are written to the log. -/
theorem redact_uri_leaks :
    let hidden : Uri := { path := utf8 "/contexts/a&acdp_rt_secret" }
    let escaped : Uri := { path := utf8 "/changes", query := some (utf8 "x=%acdp_rt_secret") }
    redactUri hidden = utf8 "/contexts/a&acdp_rt_secret" ∧ ¬Clean hidden (redactUri hidden) ∧
      redactUri escaped = utf8 "/changes?x=%acdp_rt_secret" ∧ ¬Clean escaped (redactUri escaped) := by
  refine ⟨by decide +kernel, fun h => h.written (by decide +kernel), by decide +kernel,
    fun h => h.written (by decide +kernel)⟩

end AcdpRegistry
