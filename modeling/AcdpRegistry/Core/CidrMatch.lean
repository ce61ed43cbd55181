/-
  Blocks of trusted proxies (`acdp-registry-core/src/rate_limit.rs`): how they are
  parsed, and which addresses they match.

  `masked_eq` compares octet by octet, the last one under a partial mask.  It is a
  comparison of bit prefixes (`maskedEq_iff`), so a block holds the addresses of its
  family that begin like its base (`Cidr.contains_iff`).
-/
import AcdpRegistry.Core.ClientIp
import AcdpRegistry.Core.Publish
import AcdpRegistry.Lib.Bits

namespace AcdpRegistry

open Lib

/-! ## Parsing -/

namespace IpAddr

def isIpv4 : IpAddr → Bool
  | v4 _ => true
  | v6 _ => false

def octets : IpAddr → List UInt8
  | v4 os => os.toList
  | v6 os => os.toList

def width (ip : IpAddr) : ℕ := if ip.isIpv4 then 32 else 128

def bits (ip : IpAddr) : List Bool := Bits.ofOctets ip.octets

theorem length_bits (ip : IpAddr) : ip.bits.length = ip.width := by
  rw [bits, Bits.length_ofOctets]
  cases ip <;> simp [octets, width, isIpv4]

end IpAddr

def splitOnce (sep : Char) (s : String) : Option (String × String) :=
  match s.toList.dropWhile (· ≠ sep) with
  | [] => none
  | _ :: after => some (.ofList (s.toList.takeWhile (· ≠ sep)), .ofList after)

/-- `str::parse::<u8>`. -/
def parseU8 (s : String) : Option ℕ := (parseU64 s.toList).filter (· < 2 ^ 8)

section Parse

variable (text : AddrText)

/-- `Cidr::parse`; a bare address is a block of one. -/
def Cidr.parse (s : String) : Except String Cidr := do
  let s := trimWhitespace s
  let (addrPart, prefixPart) := ((splitOnce '/' s).map fun p => (p.1, some p.2)).getD (s, none)
  let base ← (text.ip addrPart).elim (.error s!"invalid IP in CIDR '{s}'") .ok
  let max := base.width
  let prefixLen ← prefixPart.elim (.ok max) fun p =>
    (parseU8 p).elim (.error s!"invalid prefix in CIDR '{s}'") .ok
  if max < prefixLen then throw s!"prefix /{prefixLen} out of range for CIDR '{s}'"
  return ⟨base, prefixLen⟩

def TrustedProxies.parse (entries : List String) : Except String TrustedProxies :=
  (entries.mapM (Cidr.parse text)).map (⟨·⟩)

def TrustedProxies.parseLossy (entries : List String) : TrustedProxies :=
  ⟨entries.filterMap fun e => (Cidr.parse text e).toOption⟩

end Parse

theorem Cidr.parse_prefixLen_le {text : AddrText} {s : String} {block : Cidr}
    (h : Cidr.parse text s = .ok block) : block.prefixLen ≤ block.base.width := by
  obtain ⟨base, -, h⟩ := except_bind_ok.1 h
  obtain ⟨prefixLen, -, h⟩ := except_bind_ok.1 h
  split at h
  · cases h
  · next hle =>
    cases h
    exact not_lt.1 hle

/-! ## Matching -/

theorem getMsbD_mask {take : ℕ} (h : take ≤ 8) : ∀ i < 8,
    (if take = 8 then 0xFF else ~~~(0xFF >>> UInt8.ofNat take) : UInt8).toBitVec.getMsbD i =
      decide (i < take) := by
  interval_cases take <;> decide

theorem take_ofOctets_cons_eq_iff {x y : UInt8} {xs ys : List UInt8} {bits : ℕ} :
    (Bits.ofOctets (x :: xs)).take bits = (Bits.ofOctets (y :: ys)).take bits ↔
      (Bits.ofOctet x).take (min bits 8) = (Bits.ofOctet y).take (min bits 8) ∧
        (Bits.ofOctets xs).take (bits - min bits 8) = (Bits.ofOctets ys).take (bits - min bits 8) := by
  have hfirst : ∀ z : UInt8, (Bits.ofOctet z).take bits = (Bits.ofOctet z).take (min bits 8) := by
    intro z
    rw [← List.take_take, List.take_of_length_le (Bits.length_ofOctet z).le]
  have hrest : bits - 8 = bits - min bits 8 := by omega
  simp only [Bits.ofOctets_cons, List.take_append, Bits.length_ofOctet, hfirst, hrest]
  constructor
  · intro h
    exact List.append_inj h (by simp)
  · rintro ⟨hx, hxs⟩
    rw [hx, hxs]

/-- **`masked_eq` compares the first bits.** -/
theorem maskedEq_iff {xs ys : List UInt8} (hlen : xs.length = ys.length) (bits : ℕ) :
    maskedEq xs ys bits = true ↔ (Bits.ofOctets xs).take bits = (Bits.ofOctets ys).take bits := by
  induction xs generalizing ys bits with
  | nil =>
    cases ys with
    | nil => simp [maskedEq]
    | cons y ys => cases hlen
  | cons x xs ih =>
    cases ys with
    | nil => cases hlen
    | cons y ys =>
      rw [maskedEq]
      by_cases hbits : bits = 0
      · simp [hbits]
      · -- one octet under its mask, and the others with the bits that are left
        have hoctet := Bits.and_eq_and_iff (x := x) (y := y) (getMsbD_mask (min_le_right bits 8))
        have hrest := ih (Nat.succ.inj hlen) (bits - min bits 8)
        simp only [take_ofOctets_cons_eq_iff, ← hoctet, ← hrest, if_neg hbits]
        generalize (if min bits 8 = 8 then 0xFF else ~~~(0xFF >>> UInt8.ofNat (min bits 8)) : UInt8) =
          mask
        by_cases heq : x &&& mask = y &&& mask
        · simp [heq]
        · simp [heq]

/-- **A block holds the addresses of its family that begin like its base.** -/
theorem Cidr.contains_iff (block : Cidr) (ip : IpAddr) : block.contains ip = true ↔
    ip.isIpv4 = block.base.isIpv4 ∧
      ip.bits.take block.prefixLen = block.base.bits.take block.prefixLen := by
  unfold Cidr.contains
  cases hbase : block.base with
  | v4 b =>
    cases ip with
    | v4 o =>
      show maskedEq b.toList o.toList block.prefixLen = true ↔ _
      rw [maskedEq_iff (by simp), eq_comm]
      simp [IpAddr.isIpv4, IpAddr.bits, IpAddr.octets]
    | v6 o => simp [IpAddr.isIpv4]
  | v6 b =>
    cases ip with
    | v4 o => simp [IpAddr.isIpv4]
    | v6 o =>
      show maskedEq b.toList o.toList block.prefixLen = true ↔ _
      rw [maskedEq_iff (by simp), eq_comm]
      simp [IpAddr.isIpv4, IpAddr.bits, IpAddr.octets]

/-- **CIDR matching.**  A parsed block's length fits its base, and it holds just the addresses of its
    family whose first `prefix_len` bits are those of its base; so blocks with the same such bits hold the
    same addresses, and a longer length of one base holds no more. -/
theorem cidr_contains_iff_prefix (text : AddrText) {s : String} {block : Cidr}
    (h : Cidr.parse text s = .ok block) :
    block.prefixLen ≤ block.base.width ∧ block.base.bits.length = block.base.width ∧
    (∀ ip, block.contains ip = true ↔ ip.isIpv4 = block.base.isIpv4 ∧
      ip.bits.take block.prefixLen = block.base.bits.take block.prefixLen) ∧
    (∀ ip ip' : IpAddr, ip.isIpv4 = ip'.isIpv4 →
      ip.bits.take block.prefixLen = ip'.bits.take block.prefixLen →
      block.contains ip = block.contains ip') ∧
    (∀ block' : Cidr, block'.prefixLen = block.prefixLen →
      block'.base.isIpv4 = block.base.isIpv4 →
      block'.base.bits.take block.prefixLen = block.base.bits.take block.prefixLen →
      ∀ ip, block'.contains ip = block.contains ip) ∧
    ∀ block' : Cidr, block'.base = block.base → block.prefixLen ≤ block'.prefixLen →
      ∀ ip, block'.contains ip = true → block.contains ip = true := by
  refine ⟨Cidr.parse_prefixLen_le h, block.base.length_bits, block.contains_iff, ?_, ?_, ?_⟩
  · intro ip ip' hfamily hbits
    rw [Bool.eq_iff_iff, block.contains_iff, block.contains_iff, hfamily, hbits]
  · intro block' hlen hfamily hbits ip
    rw [Bool.eq_iff_iff, block.contains_iff, block'.contains_iff, hlen, hfamily, hbits]
  · intro block' hbase hle ip hin
    obtain ⟨hfamily, hbits⟩ := (block'.contains_iff ip).1 hin
    rw [hbase] at hfamily hbits
    refine (block.contains_iff ip).2 ⟨hfamily, ?_⟩
    rw [← min_eq_left hle, ← List.take_take, hbits, List.take_take]

/-- The block `172.16.9.1/12`, whose base has bits beyond its length. -/
theorem cidr_contains_iff_prefix_sample :
    Cidr.parse .ipv4 " 172.16.9.1/12 " = .ok ⟨.v4 #v[172, 16, 9, 1], 12⟩ ∧
      (⟨.v4 #v[172, 16, 9, 1], 12⟩ : Cidr).contains (.v4 #v[172, 31, 255, 255]) = true ∧
      (⟨.v4 #v[172, 16, 9, 1], 12⟩ : Cidr).contains (.v4 #v[172, 32, 0, 0]) = false := by
  have hparse : Cidr.parse .ipv4 " 172.16.9.1/12 " = .ok ⟨.v4 #v[172, 16, 9, 1], 12⟩ := by decide
  obtain ⟨-, -, hcontains, -⟩ := cidr_contains_iff_prefix .ipv4 hparse
  refine ⟨hparse, (hcontains _).2 (by decide), ?_⟩
  rw [Bool.eq_false_iff, ne_eq, hcontains]
  decide

/-! ## Trusted proxies -/

section Trusted

variable {text : AddrText} {entries : List String} {trusted : TrustedProxies}

theorem filterMap_of_mapM_cidr {cidrs : List Cidr} (h : entries.mapM (Cidr.parse text) = .ok cidrs) :
    entries.filterMap (fun e => (Cidr.parse text e).toOption) = cidrs := by
  induction entries generalizing cidrs with
  | nil =>
    cases h
    rfl
  | cons e entries ih =>
    rw [List.mapM_cons] at h
    obtain ⟨cidr, hcidr, h⟩ := except_bind_ok.1 h
    obtain ⟨rest, hrest, h⟩ := except_bind_ok.1 h
    cases h
    rw [List.filterMap_cons, hcidr, ih hrest]
    rfl

/-- Entries that startup validation accepts are read without loss. -/
theorem TrustedProxies.parseLossy_eq (h : TrustedProxies.parse text entries = .ok trusted) :
    TrustedProxies.parseLossy text entries = trusted := by
  unfold TrustedProxies.parse at h
  cases hcidrs : entries.mapM (Cidr.parse text) with
  | error e =>
    rw [hcidrs] at h
    cases h
  | ok cidrs =>
    rw [hcidrs] at h
    cases h
    rw [parseLossy, filterMap_of_mapM_cidr hcidrs]

/-- **A peer is a trusted proxy if it begins like the base of one of the entries.** -/
theorem TrustedProxies.contains_iff (h : TrustedProxies.parse text entries = .ok trusted) (ip : IpAddr) :
    trusted.contains ip = true ↔ ∃ e ∈ entries, ∃ block, Cidr.parse text e = .ok block ∧
      ip.isIpv4 = block.base.isIpv4 ∧
      ip.bits.take block.prefixLen = block.base.bits.take block.prefixLen := by
  have hparsed : ∀ e block,
      (Cidr.parse text e).toOption = some block ↔ Cidr.parse text e = .ok block := by
    intro e block
    cases Cidr.parse text e <;> simp [Except.toOption]
  rw [← parseLossy_eq h, contains, parseLossy, List.any_eq_true]
  simp only [List.mem_filterMap, hparsed, Cidr.contains_iff]
  constructor
  · rintro ⟨block, ⟨e, he, hblock⟩, hbits⟩
    exact ⟨e, he, block, hblock, hbits⟩
  · rintro ⟨e, he, block, hblock, hbits⟩
    exact ⟨block, ⟨e, he, hblock⟩, hbits⟩

end Trusted

end AcdpRegistry
