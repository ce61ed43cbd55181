/-
  Read tokens that the configuration binds to a DID, by their hashes.
-/
import AcdpRegistry.Core.Tenant
import AcdpRegistry.Lib.Base64
import AcdpRegistry.Lib.Bits
import AcdpRegistry.Lib.Hex
import AcdpRegistry.Store.Changes

namespace AcdpRegistry.Auth

open Lib

structure ReadTokenEntry where
  id : String
  did : String
  sha256 : String
  expiresAt : Option ℤ
  tenant : Option String

structure StaticReadPrincipal where
  did : String
  tenant : Option String
  tokenId : String
  deriving DecidableEq

inductive ReadTokenError
  | malformed
  | unknown
  | expired
  deriving DecidableEq

/-- `Entry`. -/
structure StaticReadToken where
  hash : List UInt8
  expiresAt : Option ℤ
  principal : StaticReadPrincipal

/-- Of characters: a text with a character outside ASCII fails either way. -/
def parseSha256Hex (s : String) : Option (List UInt8) :=
  if s.length ≠ 64 ∨ ¬s.toList.all (· ∈ Hex.alphabet) then none else some (Hex.pairs s.toList)

/-- `ReadTokens::from_config`. -/
def readTokens (config : TenantConfig) (entries : List ReadTokenEntry) : List StaticReadToken :=
  entries.filterMap fun e => do
    let hash ← parseSha256Hex e.sha256
    some ⟨hash, e.expiresAt, e.did, e.tenant <|> config.tenantForAgent e.did, e.id⟩

section

variable (sha256 : Sha256)

def readTokenSha256Hex (token : String) : String := String.ofList (Hex.encode (sha256 (utf8 token)))

/-- Of the 32 random bytes. -/
def generateReadToken (bytes : List UInt8) : String × String :=
  let token := "acdp_rt_" ++ Base64.urlSafe.encode bytes
  (token, readTokenSha256Hex sha256 token)

/-- The loop keeps the last match. -/
def findToken (tokens : List StaticReadToken) (digest : List UInt8) : Option StaticReadToken :=
  tokens.foldl (fun found t => if Bits.ctFold (t.hash.zip digest) = 0 then some t else found) none

/-- `ReadTokens::validate`. -/
def validateReadToken (tokens : List StaticReadToken) (token : String) (now : ℤ) :
    Except ReadTokenError StaticReadPrincipal :=
  match stripStart "acdp_rt_" token with
  | none => .error .malformed
  | some body =>
    if body.length ≠ 43 ∨ (Base64.urlSafe.decode body).all (·.length ≠ 32) then .error .malformed else
    match findToken tokens (sha256 (utf8 token)) with
    | none => .error .unknown
    | some t => if t.expiresAt.any (· ≤ now) then .error .expired else .ok t.principal

end

theorem parseSha256Hex_eq_some_iff {s : String} {d : List UInt8} :
    parseSha256Hex s = some d ↔ d.length = 32 ∧ s = String.ofList (Hex.encode d) := by
  unfold parseSha256Hex
  constructor
  · split_ifs with h
    · simp
    · rintro ⟨⟩
      push Not at h
      have henc := Hex.encode_pairs (by simpa using h.2) (by rw [String.length_toList, h.1]; decide)
      have hlen := Hex.length_encode (Hex.pairs s.toList)
      rw [henc, String.length_toList, h.1] at hlen
      exact ⟨by omega, by rw [henc, String.ofList_toList]⟩
  · rintro ⟨hd, rfl⟩
    rw [if_neg, String.toList_ofList, Hex.pairs_encode]
    simpa [Hex.length_encode, hd] using fun c => Hex.mem_encode

theorem findToken_readTokens {config : TenantConfig} {digest : List UInt8} (hd : digest.length = 32)
    (entries : List ReadTokenEntry) : findToken (readTokens config entries) digest =
      (entries.reverse.find? (·.sha256 = String.ofList (Hex.encode digest))).map fun e =>
        ⟨digest, e.expiresAt, e.did, e.tenant <|> config.tenantForAgent e.did, e.id⟩ := by
  induction entries using List.reverseRecOn with
  | nil => rfl
  | append_singleton entries e ih =>
    rw [List.reverse_concat, List.find?_cons, findToken, readTokens, List.filterMap_append,
      List.foldl_append]
    change List.foldl _ (findToken (readTokens config entries) digest) _ = _
    rw [ih]
    cases hparse : parseSha256Hex e.sha256 with
    | none =>
      have hne : e.sha256 ≠ String.ofList (Hex.encode digest) := fun h =>
        Option.some_ne_none _ ((parseSha256Hex_eq_some_iff.2 ⟨hd, h⟩).symm.trans hparse)
      simp [hparse, hne]
    | some hash =>
      obtain ⟨hlen, hprint⟩ := parseSha256Hex_eq_some_iff.1 hparse
      have heq : e.sha256 = String.ofList (Hex.encode digest) ↔ hash = digest := by
        rw [hprint, String.ofList_inj]
        exact (Function.LeftInverse.injective Hex.pairs_encode).eq_iff
      by_cases h : hash = digest
      · subst h
        simp [hparse, heq, (Bits.ctFold_zip_eq_zero_iff rfl).2]
      · simp [hparse, heq, h, Bits.ctFold_zip_eq_zero_iff (hlen.trans hd.symm)]

theorem validateReadToken_eq_ok_iff {sha256 : Sha256} {tokens : List StaticReadToken}
    {token : String} {now : ℤ} {p : StaticReadPrincipal} :
    validateReadToken sha256 tokens token now = .ok p ↔
      ∃ bytes t, bytes.length = 32 ∧ token = "acdp_rt_" ++ Base64.urlSafe.encode bytes ∧
        findToken tokens (sha256 (utf8 token)) = some t ∧ (∀ x ∈ t.expiresAt, now < x) ∧
        p = t.principal := by
  constructor
  · intro h
    unfold validateReadToken at h
    split at h
    · cases h
    · rename_i body hbody
      split_ifs at h with hlen
      split at h
      · cases h
      · rename_i t ht
        split_ifs at h with hexp
        cases hbytes : Base64.urlSafe.decode body with
        | none => simp [hbytes] at hlen
        | some bytes =>
          obtain rfl := Base64.Alphabet.decode_eq_some_iff.1 hbytes
          simp only [hbytes, Option.all_some, decide_eq_true_eq, not_or, not_not] at hlen
          refine ⟨bytes, t, hlen.2, stripStart_eq_some_iff.1 hbody, ht, ?_, (Except.ok.inj h).symm⟩
          simpa [Option.any_eq_true] using hexp
  · rintro ⟨bytes, t, hlen, rfl, ht, hexp, rfl⟩
    have hbody : (Base64.urlSafe.encode bytes).length = 43 := by
      simp [Base64.Alphabet.encode, Base64.Alphabet.length_encodeNat, hlen]
    have hany : ¬t.expiresAt.any (· ≤ now) := by simpa [Option.any_eq_true] using hexp
    simp [validateReadToken, stripStart_eq_some_iff.2 rfl, Base64.Alphabet.decode_eq_some_iff.2 rfl, hlen,
      hbody, ht, hany]

/-- **A read token validates exactly if it was generated and its hash is configured.**  Of the
    entries with the hash the last one decides, also if it has expired. -/
theorem read_token_valid_iff (sha256 : Sha256) (hsha : ∀ m, (sha256 m).length = 32)
    (config : TenantConfig) (entries : List ReadTokenEntry) (token : String) (now : ℤ)
    (p : StaticReadPrincipal) :
    validateReadToken sha256 (readTokens config entries) token now = .ok p ↔
      ∃ bytes before e after, bytes.length = 32 ∧ entries = before ++ e :: after ∧
        generateReadToken sha256 bytes = (token, e.sha256) ∧ (∀ e' ∈ after, e'.sha256 ≠ e.sha256) ∧
        (∀ t ∈ e.expiresAt, now < t) ∧
        p = ⟨e.did, e.tenant <|> config.tenantForAgent e.did, e.id⟩ := by
  rw [validateReadToken_eq_ok_iff, findToken_readTokens (hsha _)]
  simp only [Option.map_eq_some_iff, List.find?_eq_some_iff_append, decide_eq_true_eq]
  constructor
  · rintro ⟨bytes, _, hlen, rfl, ⟨e, ⟨hhash, after, before, hrev, hafter⟩, rfl⟩, hexp, rfl⟩
    refine ⟨bytes, before.reverse, e, after.reverse, hlen, ?_, Prod.ext rfl hhash.symm, ?_, hexp, rfl⟩
    · simpa using congrArg List.reverse hrev
    · simpa [hhash] using hafter
  · rintro ⟨bytes, before, e, after, hlen, rfl, hgen, hafter, hexp, rfl⟩
    obtain ⟨rfl, hhash⟩ := Prod.mk.inj hgen
    refine ⟨bytes, _, hlen, rfl, ⟨e, ⟨hhash.symm, after.reverse, before.reverse, by simp, ?_⟩, rfl⟩,
      hexp, rfl⟩
    simpa [← hhash, readTokenSha256Hex] using hafter

theorem read_token_valid_sample :
    let hash := List.replicate 32 171
    let entries := [⟨"one", "did:web:a.example", String.ofList (Hex.encode hash), some 10, none⟩]
    validateReadToken (fun _ => hash) (readTokens Sample.tenantConfig entries)
      (generateReadToken (fun _ => hash) (List.replicate 32 7)).1 9 =
        .ok ⟨"did:web:a.example", none, "one"⟩ := by
  exact (read_token_valid_iff _ (fun _ => rfl) _ _ _ _ _).2
    ⟨List.replicate 32 7, [], _, [], rfl, rfl, rfl, by simp, by simp, rfl⟩

end AcdpRegistry.Auth
