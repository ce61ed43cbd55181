/-
  The client address behind reverse proxies (`acdp-registry-core/src/rate_limit.rs`,
  `AppStateInner::client_ip`).

  `X-Forwarded-For` is read from the right: first the hops the edge appends, then the
  trusted proxies, up to the first address that is not one.  Whatever a client writes
  stands further to the left.  The walk is over the hops in that order, so that forged
  text only makes its list longer at the end.
-/
import AcdpRegistry.Core.Tenant
import Mathlib.Tactic

namespace AcdpRegistry

/-! ## Hops -/

/-- What the standard library reads as an address, and as the address of a socket address. -/
structure AddrText where
  ip : String → Option IpAddr
  socket : String → Option IpAddr

/-- `str::trim`. -/
def trimWhitespace (s : String) : String :=
  .ofList ((s.toList.dropWhile isWhitespace).reverse.dropWhile isWhitespace).reverse

def commaParts (s : String) : List String := (s.toList.splitOnP (· = ',')).map String.ofList

structure TrustedProxies where
  cidrs : List Cidr
  deriving DecidableEq, Repr

def TrustedProxies.contains (trusted : TrustedProxies) (ip : IpAddr) : Bool :=
  trusted.cidrs.any (·.contains ip)

inductive ForwardedHeaderTrust
  | trustedProxies
  | anyPeer
  deriving DecidableEq, Repr

inductive WalkEnd
  /-- No hop is left. -/
  | exhausted
  /-- A hop is not an address. -/
  | garbage
  /-- A hop is not a trusted proxy. -/
  | client (ip : IpAddr)
  deriving DecidableEq, Repr

section Resolve

variable (text : AddrText) (trusted : TrustedProxies)

/-- `parse_hop`: a port is dropped. -/
def parseHop (hop : String) : Option IpAddr :=
  (text.ip (trimWhitespace hop)).map canonicalIp <|> (text.socket (trimWhitespace hop)).map canonicalIp

/-- The hops of a header, nearest first. -/
def hopsOf (xff : String) : List (Option IpAddr) := ((commaParts xff).reverse).map (parseHop text)

def walkHops : List (Option IpAddr) → WalkEnd
  | [] => .exhausted
  | none :: _ => .garbage
  | some ip :: hops => if trusted.contains ip then walkHops hops else .client ip

/-- The walk, with the edge's own hops before it: they are addresses, and never the client. -/
def walk : ℕ → List (Option IpAddr) → WalkEnd
  | 0, hops => walkHops trusted hops
  | _ + 1, [] => .exhausted
  | _ + 1, none :: _ => .garbage
  | skip + 1, some _ :: hops => walk skip hops

def peerTrusted (mode : ForwardedHeaderTrust) (peer : IpAddr) : Bool :=
  match mode with
  | .anyPeer => true
  | .trustedProxies => !trusted.cidrs.isEmpty && trusted.contains peer

def resolveClientIpSkipping (peer : IpAddr) (xff : Option String) (mode : ForwardedHeaderTrust)
    (skipRightmost : ℕ) : IpAddr :=
  if !peerTrusted trusted mode peer then peer
  else
    match xff with
    | none => peer
    | some xff =>
      match walk trusted skipRightmost (hopsOf text xff) with
      | .client ip => ip
      | .garbage => peer
      | .exhausted => peer

end Resolve

/-! ## The walk -/

section Walk

variable {text : AddrText} {trusted : TrustedProxies} {hops : List (Option IpAddr)}

theorem walkHops_append (h : walkHops trusted hops ≠ .exhausted) (beyond : List (Option IpAddr)) :
    walkHops trusted (hops ++ beyond) = walkHops trusted hops := by
  induction hops with
  | nil => exact absurd rfl h
  | cons hop hops ih =>
    cases hop with
    | none => rfl
    | some ip =>
      simp only [List.cons_append, walkHops] at h ⊢
      split
      · next htrusted =>
        rw [if_pos htrusted] at h
        exact ih h
      · rfl

theorem walk_append {skip : ℕ} (h : walk trusted skip hops ≠ .exhausted)
    (beyond : List (Option IpAddr)) : walk trusted skip (hops ++ beyond) = walk trusted skip hops := by
  induction skip generalizing hops with
  | zero => exact walkHops_append h beyond
  | succ skip ih =>
    cases hops with
    | nil => exact absurd rfl h
    | cons hop hops =>
      cases hop with
      | none => rfl
      | some ip => exact ih h

theorem walkHops_client {ip : IpAddr} (h : walkHops trusted hops = .client ip) :
    some ip ∈ hops ∧ trusted.contains ip = false := by
  induction hops with
  | nil => cases h
  | cons hop hops ih =>
    cases hop with
    | none => cases h
    | some first =>
      simp only [walkHops] at h
      split at h
      · exact ⟨List.mem_cons_of_mem _ (ih h).1, (ih h).2⟩
      · next huntrusted =>
        cases h
        exact ⟨List.mem_cons_self, by simpa using huntrusted⟩

theorem walk_client {skip : ℕ} {ip : IpAddr} (h : walk trusted skip hops = .client ip) :
    some ip ∈ hops ∧ trusted.contains ip = false := by
  induction skip generalizing hops with
  | zero => exact walkHops_client h
  | succ skip ih =>
    cases hops with
    | nil => cases h
    | cons hop hops =>
      cases hop with
      | none => cases h
      | some first => exact ⟨List.mem_cons_of_mem _ (ih h).1, (ih h).2⟩

theorem hopsOf_forged (forged header : String) :
    hopsOf text (forged ++ "," ++ header) = hopsOf text header ++ hopsOf text forged := by
  have hparts : commaParts (forged ++ "," ++ header) = commaParts forged ++ commaParts header := by
    have hlist : (forged ++ "," ++ header).toList = forged.toList ++ ',' :: header.toList := by
      simp [String.toList_append]
    rw [commaParts, hlist, List.splitOnP_append_cons _ _ (by simp), List.map_append]
    rfl
  rw [hopsOf, hparts, List.reverse_append, List.map_append]
  rfl

theorem resolveClientIpSkipping_forged (peer : IpAddr) (mode : ForwardedHeaderTrust) {skip : ℕ}
    {header : String} (hends : walk trusted skip (hopsOf text header) ≠ .exhausted) (forged : String) :
    resolveClientIpSkipping text trusted peer (some (forged ++ "," ++ header)) mode skip =
      resolveClientIpSkipping text trusted peer (some header) mode skip := by
  rw [resolveClientIpSkipping, resolveClientIpSkipping, hopsOf_forged, walk_append hends]

end Walk

/-- **Forged hops do not matter.**  Text put before a header changes nothing if the header is not read from
    this peer, or if the walk over it ends at an address that is not trusted or at no address; and the
    result is the peer, or a hop that is not a trusted proxy. -/
theorem forged_hops_ignored (text : AddrText) (trusted : TrustedProxies) (peer : IpAddr)
    (mode : ForwardedHeaderTrust) (skipRightmost : ℕ) :
    (∀ forged header : String,
      peerTrusted trusted mode peer = false ∨
          walk trusted skipRightmost (hopsOf text header) ≠ .exhausted →
        resolveClientIpSkipping text trusted peer (some (forged ++ "," ++ header)) mode skipRightmost =
          resolveClientIpSkipping text trusted peer (some header) mode skipRightmost) ∧
    (∀ xff : Option String,
      resolveClientIpSkipping text trusted peer xff mode skipRightmost = peer ∨
        ∃ header ip, xff = some header ∧
          resolveClientIpSkipping text trusted peer xff mode skipRightmost = ip ∧
          (∃ hop ∈ commaParts header, parseHop text hop = some ip) ∧ trusted.contains ip = false) := by
  refine ⟨fun forged header h => ?_, fun xff => ?_⟩
  · rcases h with hpeer | hends
    · simp [resolveClientIpSkipping, hpeer]
    · exact resolveClientIpSkipping_forged peer mode hends forged
  · cases hpeer : peerTrusted trusted mode peer with
    | false => exact .inl (by simp [resolveClientIpSkipping, hpeer])
    | true =>
      cases xff with
      | none => exact .inl (by simp [resolveClientIpSkipping])
      | some header =>
        cases hwalk : walk trusted skipRightmost (hopsOf text header) with
        | exhausted => exact .inl (by simp [resolveClientIpSkipping, hwalk])
        | garbage => exact .inl (by simp [resolveClientIpSkipping, hwalk])
        | client ip =>
          obtain ⟨hmem, huntrusted⟩ := walk_client hwalk
          refine .inr ⟨header, ip, rfl, by simp [resolveClientIpSkipping, hpeer, hwalk], ?_, huntrusted⟩
          obtain ⟨hop, hhop, hparse⟩ := List.mem_map.1 hmem
          exact ⟨hop, List.mem_reverse.1 hhop, hparse⟩

def decimalText (max : ℕ) (cs : List Char) : Option ℕ :=
  if cs.isEmpty || !cs.all Char.isDigit then none
  else some (cs.foldl (fun n c => n * 10 + (c.toNat - '0'.toNat)) 0) |>.filter (· ≤ max)

def octetText (cs : List Char) : Option UInt8 :=
  if 1 < cs.length && cs.head? = some '0' then none else (decimalText 255 cs).map UInt8.ofNat

def AddrText.ipv4 : AddrText where
  ip s := quad s.toList
  socket s :=
    match s.toList.splitOnP (· = ':') with
    | [addr, port] => if (decimalText 65535 port).isSome then quad addr else none
    | _ => none
where
  quad (cs : List Char) : Option IpAddr :=
    ((cs.splitOnP (· = '.')).mapM octetText).bind fun octets =>
      if octets.length = 4 then some (.v4 (Vector.ofFn fun i => octets.getD i 0)) else none

/-- Behind one proxy of `10.0.0.0/8`, which appends the address it saw, and its own. -/
theorem forged_hops_ignored_sample :
    let trusted : TrustedProxies := ⟨[⟨.v4 #v[10, 0, 0, 0], 8⟩]⟩
    let resolve (header : String) : IpAddr :=
      resolveClientIpSkipping .ipv4 trusted (.v4 #v[10, 0, 0, 1]) (some header) .trustedProxies 0
    walk trusted 0 (hopsOf .ipv4 "203.0.113.7:4711, 10.0.0.2") = .client (.v4 #v[203, 0, 113, 7]) ∧
      resolve ("198.51.100.9, 10.9.9.9" ++ "," ++ "203.0.113.7:4711, 10.0.0.2") =
        .v4 #v[203, 0, 113, 7] := by
  intro trusted resolve
  have hwalk : walk trusted 0 (hopsOf .ipv4 "203.0.113.7:4711, 10.0.0.2") =
      .client (.v4 #v[203, 0, 113, 7]) := by decide
  refine ⟨hwalk, ?_⟩
  have hends : walk trusted 0 (hopsOf .ipv4 "203.0.113.7:4711, 10.0.0.2") ≠ .exhausted := by
    rw [hwalk]
    exact nofun
  rw [show resolve _ = _ from (forged_hops_ignored .ipv4 trusted (.v4 #v[10, 0, 0, 1]) .trustedProxies 0).1
    "198.51.100.9, 10.9.9.9" "203.0.113.7:4711, 10.0.0.2" (.inr hends)]
  decide

/-! ## The request -/

structure ForwardedPolicy where
  trustedProxies : TrustedProxies
  forwardedHeaderTrust : ForwardedHeaderTrust
  forwardedSkipRightmost : UInt8

/-- `client_ip`. All lines of the header make one list, and a line that is not visible ASCII, here
    `none`, makes it unusable. -/
def clientIp (text : AddrText) (policy : ForwardedPolicy) (peer : Option IpAddr)
    (lines : List (Option String)) : IpAddr :=
  let xff := ((lines.mapM id).filter (!·.isEmpty)).map (",".intercalate ·)
  resolveClientIpSkipping text policy.trustedProxies (peer.getD (.v4 #v[0, 0, 0, 0])) xff
    policy.forwardedHeaderTrust policy.forwardedSkipRightmost.toNat

theorem clientIp_forged_line (text : AddrText) (policy : ForwardedPolicy) (peer : Option IpAddr)
    (forged : String) {lines : List String} (hlines : lines ≠ [])
    (hends : walk policy.trustedProxies policy.forwardedSkipRightmost.toNat
      (hopsOf text (",".intercalate lines)) ≠ .exhausted) :
    clientIp text policy peer (some forged :: lines.map some) =
      clientIp text policy peer (lines.map some) := by
  have hcollect : ∀ ls : List String, (ls.map some).mapM id = some ls := by
    intro ls
    induction ls with
    | nil => rfl
    | cons l ls ih => simp [ih]
  have hforged : (some forged :: lines.map some).mapM id = some (forged :: lines) :=
    hcollect (forged :: lines)
  have hline : lines.isEmpty = false := by simpa using hlines
  unfold clientIp
  rw [hcollect, hforged]
  simp only [Option.filter_some, List.isEmpty_cons, hline, Bool.not_false, if_true, Option.map_some]
  rw [String.intercalate_cons_of_ne_nil hlines]
  exact resolveClientIpSkipping_forged _ _ hends forged

theorem clientIp_forged_line_sample :
    clientIp .ipv4 ⟨⟨[⟨.v4 #v[10, 0, 0, 0], 8⟩]⟩, .trustedProxies, 0⟩ (some (.v4 #v[10, 0, 0, 1]))
      [some "198.51.100.9", some "203.0.113.7"] = .v4 #v[203, 0, 113, 7] :=
  (@clientIp_forged_line .ipv4 _ _ "198.51.100.9" ["203.0.113.7"] (by simp) (by decide)).trans
    (by decide)

end AcdpRegistry
