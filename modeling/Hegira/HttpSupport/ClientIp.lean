/-
# The client's address

`crates/http_support/src/rate_limit.rs`: `ClientIpResolver::resolve` follows the
`X-Forwarded-For` chain from the right as long as it stands on trusted proxies.  So a
client cannot move the address it resolves to by what it writes in front of the chain
(`client_ip_unspoofable`).

`http` and `ipnet` are third-party crates; what is used of them is a parameter.
-/

import Hegira.HttpSupport.IpAddr
import Hegira.Library.Validation

namespace Hegira
namespace HttpSupport

open Validation

/-- What is used of `http` and `ipnet`. -/
structure NetLibrary (HeaderValue Net : Type) where
  /-- `HeaderValue::to_str`. -/
  toStr : HeaderValue → Option (List Char)
  /-- `str::parse::<IpNet>`. -/
  parseNet : String → Option Net
  /-- `IpNet::prefix_len`. -/
  prefixLen : Net → ℕ
  /-- `IpNet::contains`. -/
  contains : Net → IpAddr → Bool

/-- What is read of a request: the peer of its connection and the values of its
`x-forwarded-for` headers, in order. -/
structure Request (HeaderValue : Type) where
  method : String
  path : List Char
  peer : Option IpAddr
  forwardedFor : List HeaderValue

structure ClientIpResolver (Net : Type) where
  trustedProxies : List Net

inductive ClientIpError where
  | missingPeerAddress
  | invalidForwardedFor
  deriving DecidableEq, Repr

def maxForwardedHops : ℕ := 32

variable {HeaderValue Net : Type} (lib : NetLibrary HeaderValue Net)

/-- `ClientIpResolver::from_trusted_proxies`. -/
def ClientIpResolver.fromTrustedProxies (networks : List String) :
    Except String (ClientIpResolver Net) := do
  let trustedProxies ← networks.mapM fun network => do
    let some parsed := lib.parseNet network
      | throw s!"security.trusted_proxies entry `{network}` must be a valid IPv4 or IPv6 CIDR"
    if lib.prefixLen parsed = 0 then
      throw s!"security.trusted_proxies entry `{network}` must not trust every address"
    return parsed
  return ⟨trustedProxies⟩

/-- `normalize_ip`. -/
def normalizeIp : IpAddr → IpAddr
  | .v6 address => (address.toIpv4Mapped.map IpAddr.v4).getD (.v6 address)
  | .v4 address => .v4 address

/-- `str::trim`; a header's text is ASCII. -/
def trim (text : List Char) : List Char :=
  ((text.dropWhile Char.isWhitespace).reverse.dropWhile Char.isWhitespace).reverse

/-- The address of one item of the chain. -/
def parseItem (item : List Char) : Option IpAddr := (parseIpAddr (trim item)).map normalizeIp

/-- One turn of the inner loop of `parse_x_forwarded_for`. -/
def pushItem (addresses : List IpAddr) (item : List Char) :
    Except ClientIpError (List IpAddr) :=
  if maxForwardedHops ≤ addresses.length then throw .invalidForwardedFor
  else
    match parseItem item with
    | some address => pure (addresses ++ [address])
    | none => throw .invalidForwardedFor

/-- One turn of the outer loop of `parse_x_forwarded_for`. -/
def pushValue (addresses : List IpAddr) (value : HeaderValue) :
    Except ClientIpError (List IpAddr) :=
  match lib.toStr value with
  | some text => (text.splitOn ',').foldlM pushItem addresses
  | none => throw .invalidForwardedFor

/-- `parse_x_forwarded_for`. -/
def parseXForwardedFor (values : List HeaderValue) : Except ClientIpError (List IpAddr) :=
  values.foldlM (pushValue lib) []

/-- `ClientIpResolver::is_trusted`. -/
def ClientIpResolver.isTrusted (resolver : ClientIpResolver Net) (address : IpAddr) : Bool :=
  resolver.trustedProxies.any fun network => lib.contains network address

/-- The loop of `resolve` over the chain from the right. -/
def follow (trusted : IpAddr → Bool) (resolved : IpAddr) : List IpAddr → IpAddr
  | [] => resolved
  | candidate :: rest => if trusted resolved then follow trusted candidate rest else resolved

/-- `ClientIpResolver::resolve`. -/
def ClientIpResolver.resolve (resolver : ClientIpResolver Net) (req : Request HeaderValue) :
    Except ClientIpError IpAddr :=
  match req.peer.map normalizeIp with
  | none => throw .missingPeerAddress
  | some peer =>
      if !resolver.isTrusted lib peer then pure peer
      else do
        let forwarded ← parseXForwardedFor lib req.forwardedFor
        return follow (resolver.isTrusted lib) peer forwarded.reverse

/-! ### The chain -/

/-- These addresses stand in the items. -/
def Stand (items : List (List Char)) (chain : List IpAddr) : Prop :=
  List.Forall₂ (fun item address => parseItem item = some address) items chain

/-- **A well-formed chain.**  Every value is text, every item of every value is an address,
whichever value it stands in, and there are not too many. -/
def WellFormed (values : List HeaderValue) (chain : List IpAddr) : Prop :=
  ∃ texts, List.Forall₂ (fun value text => lib.toStr value = some text) values texts ∧
    Stand (texts.flatMap (·.splitOn ',')) chain ∧ chain.length ≤ maxForwardedHops

/-- An item is accepted when it is an address and there is room. -/
theorem pushItem_eq_ok {addresses result : List IpAddr} {item : List Char} :
    pushItem addresses item = .ok result ↔ addresses.length < maxForwardedHops ∧
      ∃ address, parseItem item = some address ∧ result = addresses ++ [address] := by
  rw [pushItem]
  split
  · next h =>
      rw [throw_eq_ok, false_iff, not_and]
      exact fun hlt => absurd hlt (Nat.not_lt.2 h)
  · next h =>
      cases parseItem item with
      | none => simp
      | some address =>
          rw [pure_eq_ok]
          simp [Nat.lt_of_not_le h, eq_comm]

/-- The first items are the first addresses. -/
theorem Stand.of_append {items items' : List (List Char)} {chain : List IpAddr}
    (h : Stand (items ++ items') chain) :
    ∃ first others, chain = first ++ others ∧ Stand items first ∧ Stand items' others := by
  have hfirst := List.forall₂_take items.length h
  have hothers := List.forall₂_drop items.length h
  rw [List.take_left] at hfirst
  rw [List.drop_left] at hothers
  exact ⟨_, _, (List.take_append_drop items.length chain).symm, hfirst, hothers⟩

/-- The items of a value are accepted in turn. -/
theorem foldlM_pushItem {items : List (List Char)} {addresses result : List IpAddr}
    (h : addresses.length ≤ maxForwardedHops) :
    items.foldlM pushItem addresses = .ok result ↔
      ∃ chain, Stand items chain ∧ result = addresses ++ chain ∧
        result.length ≤ maxForwardedHops := by
  induction items generalizing addresses with
  | nil =>
      rw [List.foldlM_nil, pure_eq_ok]
      constructor
      · rintro rfl
        exact ⟨[], List.Forall₂.nil, (List.append_nil _).symm, h⟩
      · rintro ⟨chain, hchain, rfl, -⟩
        rw [List.forall₂_nil_left_iff.1 hchain, List.append_nil]
  | cons item items ih =>
      rw [List.foldlM_cons, bind_eq_ok]
      simp only [pushItem_eq_ok]
      constructor
      · rintro ⟨_, ⟨hlt, address, hitem, rfl⟩, hrest⟩
        have hle : (addresses ++ [address]).length ≤ maxForwardedHops := by
          rw [List.length_append, List.length_singleton]
          omega
        obtain ⟨chain, hchain, rfl, hlength⟩ := (ih hle).1 hrest
        exact ⟨address :: chain, .cons hitem hchain, List.append_assoc .., hlength⟩
      · rintro ⟨_, hchain, rfl, hlength⟩
        cases hchain with
        | cons hitem hchain =>
            next address chain =>
            have hle := hlength
            rw [List.length_append, List.length_cons] at hle
            have hroom : (addresses ++ [address]).length ≤ maxForwardedHops := by
              rw [List.length_append, List.length_singleton]
              omega
            exact ⟨_, ⟨by omega, address, hitem, rfl⟩, (ih hroom).2
              ⟨chain, hchain, (List.append_assoc addresses [address] chain).symm, hlength⟩⟩

theorem foldlM_pushValue {values : List HeaderValue} {addresses result : List IpAddr}
    (h : addresses.length ≤ maxForwardedHops) :
    values.foldlM (pushValue lib) addresses = .ok result ↔
      ∃ texts chain, List.Forall₂ (fun value text => lib.toStr value = some text) values texts ∧
        Stand (texts.flatMap (·.splitOn ',')) chain ∧ result = addresses ++ chain ∧
          result.length ≤ maxForwardedHops := by
  induction values generalizing addresses with
  | nil =>
      rw [List.foldlM_nil, pure_eq_ok]
      constructor
      · rintro rfl
        exact ⟨[], [], .nil, .nil, (List.append_nil _).symm, h⟩
      · rintro ⟨texts, chain, htexts, hchain, rfl, -⟩
        rw [List.forall₂_nil_left_iff.1 htexts] at hchain
        rw [List.forall₂_nil_left_iff.1 hchain, List.append_nil]
  | cons value values ih =>
      rw [List.foldlM_cons, bind_eq_ok]
      constructor
      · rintro ⟨pushed, hvalue, hrest⟩
        rw [pushValue] at hvalue
        split at hvalue
        · next text htext =>
            obtain ⟨chain, hchain, rfl, hlength⟩ := (foldlM_pushItem h).1 hvalue
            obtain ⟨texts, chain', htexts, hchain', rfl, hlength'⟩ := (ih hlength).1 hrest
            exact ⟨text :: texts, chain ++ chain', .cons htext htexts,
              List.rel_append hchain hchain', List.append_assoc .., hlength'⟩
        · exact absurd hvalue throw_eq_ok.1
      · rintro ⟨_, chain, htexts, hchain, rfl, hlength⟩
        cases htexts with
        | cons htext htexts =>
            next text texts =>
            obtain ⟨first, others, rfl, hfirst, hothers⟩ := hchain.of_append
            have hroom : (addresses ++ first).length ≤ maxForwardedHops := by
              rw [List.length_append, List.length_append] at hlength
              rw [List.length_append]
              omega
            refine ⟨addresses ++ first, ?_, ?_⟩
            · rw [pushValue, htext]
              exact (foldlM_pushItem h).2 ⟨first, hfirst, rfl, hroom⟩
            · exact (ih hroom).2
                ⟨texts, others, htexts, hothers, (List.append_assoc ..).symm, hlength⟩

/-- **The parser** accepts exactly the well formed chains. -/
theorem parseXForwardedFor_eq_ok {values : List HeaderValue} {chain : List IpAddr} :
    parseXForwardedFor lib values = .ok chain ↔ WellFormed lib values chain := by
  rw [parseXForwardedFor, foldlM_pushValue lib (Nat.zero_le _)]
  constructor
  · rintro ⟨texts, _, htexts, hchain, rfl, hlength⟩
    exact ⟨texts, htexts, hchain, hlength⟩
  · rintro ⟨texts, htexts, hchain, hlength⟩
    exact ⟨texts, chain, htexts, hchain, rfl, hlength⟩

/-! ### The walk -/

/-- The rightmost address of the hops that is not trusted, and the leftmost hop when all
are. -/
def rightmostUntrusted (trusted : IpAddr → Bool) (chain : List IpAddr) (peer : IpAddr) : IpAddr :=
  ((chain ++ [peer]).reverse.find? fun address => !trusted address).getD
    ((chain ++ [peer]).headD peer)

/-- Following the chain ends at the first address that is not trusted. -/
theorem follow_eq (trusted : IpAddr → Bool) (peer : IpAddr) (rest : List IpAddr) :
    follow trusted peer rest = ((peer :: rest).find? fun address => !trusted address).getD
      ((peer :: rest).getLastD peer) := by
  induction rest generalizing peer with
  | nil => cases h : trusted peer <;> simp [follow, h]
  | cons candidate rest ih =>
      rw [follow]
      cases h : trusted peer with
      | false => simp [h]
      | true =>
          have hskip : (peer :: candidate :: rest).find? (fun address => !trusted address) =
              (candidate :: rest).find? fun address => !trusted address :=
            List.find?_cons_of_neg (by simp [h])
          rw [if_pos rfl, ih, hskip]
          rfl

/-- Read from the right, it is the rightmost one. -/
theorem follow_reverse (trusted : IpAddr → Bool) (chain : List IpAddr) (peer : IpAddr) :
    follow trusted peer chain.reverse = rightmostUntrusted trusted chain peer := by
  have hhops : peer :: chain.reverse = (chain ++ [peer]).reverse := by simp
  rw [follow_eq, hhops, List.getLastD_eq_getLast?, List.getLast?_reverse, rightmostUntrusted,
    List.headD_eq_head?_getD]

/-- It is in the chain or is the peer. -/
theorem rightmostUntrusted_mem (trusted : IpAddr → Bool) (chain : List IpAddr) (peer : IpAddr) :
    rightmostUntrusted trusted chain peer ∈ chain ++ [peer] := by
  rw [rightmostUntrusted]
  cases hfind : (chain ++ [peer]).reverse.find? fun address => !trusted address with
  | some address => exact List.mem_reverse.1 (List.mem_of_find?_eq_some hfind)
  | none => cases chain <;> simp

/-- What stands in front of an untrusted address does not matter. -/
theorem rightmostUntrusted_append {trusted : IpAddr → Bool} {chain : List IpAddr}
    {peer : IpAddr} (h : trusted (rightmostUntrusted trusted chain peer) = false)
    (spoofed : List IpAddr) :
    rightmostUntrusted trusted (spoofed ++ chain) peer = rightmostUntrusted trusted chain peer := by
  have hsome : ((chain ++ [peer]).reverse.find? fun address => !trusted address).isSome := by
    rw [List.find?_isSome]
    exact ⟨_, List.mem_reverse.2 (rightmostUntrusted_mem trusted chain peer), by rw [h]; rfl⟩
  obtain ⟨address, haddress⟩ := Option.isSome_iff_exists.1 hsome
  rw [rightmostUntrusted, rightmostUntrusted, List.append_assoc, List.reverse_append,
    List.find?_append, haddress]
  rfl

/-! ### Resolution -/

variable {lib}

/-- A peer that is not trusted is the client. -/
theorem ClientIpResolver.resolve_untrusted {resolver : ClientIpResolver Net}
    {req : Request HeaderValue} {peer : IpAddr} (hpeer : req.peer = some peer)
    (h : resolver.isTrusted lib (normalizeIp peer) = false) :
    resolver.resolve lib req = .ok (normalizeIp peer) := by
  rw [resolve, hpeer]
  simp only [Option.map_some, h]
  rfl

/-- What a well formed chain resolves to. -/
theorem ClientIpResolver.resolve_eq {resolver : ClientIpResolver Net}
    {req : Request HeaderValue} {peer : IpAddr} {chain : List IpAddr} (hpeer : req.peer = some peer)
    (h : WellFormed lib req.forwardedFor chain) :
    resolver.resolve lib req =
      .ok (rightmostUntrusted (resolver.isTrusted lib) chain (normalizeIp peer)) := by
  cases htrusted : resolver.isTrusted lib (normalizeIp peer) with
  | false =>
      rw [resolve_untrusted hpeer htrusted, rightmostUntrusted, List.reverse_append]
      simp [htrusted]
  | true =>
      rw [resolve, hpeer]
      simp only [Option.map_some, htrusted]
      rw [(parseXForwardedFor_eq_ok lib).2 h, ← follow_reverse]
      rfl

/-! ### Resolved addresses are normal -/

/-- Normalising twice is normalising once. -/
theorem normalizeIp_normalizeIp (ip : IpAddr) : normalizeIp (normalizeIp ip) = normalizeIp ip := by
  cases ip with
  | v4 address => rfl
  | v6 address =>
      cases h : address.toIpv4Mapped with
      | none => simp only [normalizeIp, h, Option.map_none, Option.getD_none]
      | some ipv4 => simp only [normalizeIp, h, Option.map_some, Option.getD_some]

/-- The addresses of a chain are normal. -/
theorem Stand.normal {items : List (List Char)} {chain : List IpAddr} (h : Stand items chain) :
    ∀ address ∈ chain, normalizeIp address = address := by
  induction h with
  | nil => exact fun _ hmem => absurd hmem List.not_mem_nil
  | cons hitem _ ih =>
      rw [List.forall_mem_cons]
      obtain ⟨parsed, -, rfl⟩ := Option.map_eq_some_iff.1 hitem
      exact ⟨normalizeIp_normalizeIp parsed, ih⟩

/-- A resolved address is not an IPv4 address in IPv6. -/
theorem ClientIpResolver.normal_of_resolve {resolver : ClientIpResolver Net}
    {req : Request HeaderValue} {ip : IpAddr} (h : resolver.resolve lib req = .ok ip) :
    normalizeIp ip = ip := by
  cases hpeer : req.peer with
  | none =>
      rw [resolve, hpeer] at h
      cases h
  | some peer =>
      cases htrusted : resolver.isTrusted lib (normalizeIp peer) with
      | false =>
          rw [resolve_untrusted hpeer htrusted] at h
          obtain rfl := Except.ok.inj h
          exact normalizeIp_normalizeIp peer
      | true =>
          have hresolve := h
          rw [resolve, hpeer] at h
          simp only [Option.map_some, htrusted, Bool.not_true, Bool.false_eq_true,
            if_false] at h
          obtain ⟨chain, hchain, -⟩ := bind_eq_ok.1 h
          have hwell := (parseXForwardedFor_eq_ok lib).1 hchain
          rw [resolve_eq hpeer hwell] at hresolve
          obtain rfl := Except.ok.inj hresolve
          obtain ⟨_, -, hstand, -⟩ := hwell
          obtain hmem | hmem := List.mem_append.1
            (rightmostUntrusted_mem (resolver.isTrusted lib) chain (normalizeIp peer))
          · exact hstand.normal _ hmem
          · rw [List.mem_singleton.1 hmem]
            exact normalizeIp_normalizeIp peer

/-- **A client cannot choose its address.**  An untrusted peer resolves to itself.  From
a trusted peer, a well-formed chain resolves to the rightmost untrusted address of the
chain and the peer, or the leftmost one when all are trusted; so when it resolves to an
untrusted address, every well-formed chain that extends it to the left, split over
whatever header values, resolves to the same one. -/
theorem client_ip_unspoofable (lib : NetLibrary HeaderValue Net)
    (resolver : ClientIpResolver Net) (peer : IpAddr) :
    let trusted := resolver.isTrusted lib
    (trusted (normalizeIp peer) = false → ∀ req : Request HeaderValue, req.peer = some peer →
      resolver.resolve lib req = .ok (normalizeIp peer)) ∧
    (∀ (req : Request HeaderValue) (chain : List IpAddr), req.peer = some peer →
      WellFormed lib req.forwardedFor chain →
      resolver.resolve lib req = .ok (rightmostUntrusted trusted chain (normalizeIp peer))) ∧
    (∀ (req req' : Request HeaderValue) (chain spoofed : List IpAddr) (address : IpAddr),
      req.peer = some peer → req'.peer = some peer →
      WellFormed lib req.forwardedFor chain → resolver.resolve lib req = .ok address →
      trusted address = false → WellFormed lib req'.forwardedFor (spoofed ++ chain) →
      resolver.resolve lib req' = .ok address) ∧
    ∀ (values : List HeaderValue) (chain : List IpAddr),
      parseXForwardedFor lib values = .ok chain ↔ WellFormed lib values chain := by
  intro trusted
  refine ⟨fun h req hpeer => ClientIpResolver.resolve_untrusted hpeer h,
    fun req chain hpeer hchain => ClientIpResolver.resolve_eq hpeer hchain, ?_,
    fun values chain => parseXForwardedFor_eq_ok lib⟩
  intro req req' chain spoofed address hpeer hpeer' hchain haddress huntrusted hspoofed
  rw [ClientIpResolver.resolve_eq hpeer hchain] at haddress
  obtain rfl := Except.ok.inj haddress
  rw [ClientIpResolver.resolve_eq hpeer' hspoofed]
  exact congrArg Except.ok (rightmostUntrusted_append huntrusted spoofed)

/-- IPv4 networks with a prefix of eight bits, and header values that are text. -/
def eightBitNetworks : NetLibrary String UInt8 where
  toStr value := some value.toList
  parseNet network := if network = "10.0.0.0/8" then some 10 else none
  prefixLen _ := 8
  contains net
    | .v4 address => address.a == net
    | .v6 _ => false

/-- Behind the proxies of `10.0.0.0/8` and `192.0.0.0/8`, `198.51.100.7` stays
`198.51.100.7` when it claims to come from `203.0.113.99`. -/
theorem client_ip_unspoofable_proxy :
    ClientIpResolver.resolve eightBitNetworks ⟨[10, 192]⟩
        ⟨"POST", "/test".toList, some (.v4 ⟨10, 0, 0, 2⟩),
          ["203.0.113.99", " 198.51.100.7, ::ffff:192.168.1.10"]⟩ =
      .ok (.v4 ⟨198, 51, 100, 7⟩) :=
  have h := client_ip_unspoofable eightBitNetworks ⟨[10, 192]⟩ (.v4 ⟨10, 0, 0, 2⟩)
  h.2.2.1 ⟨"POST", "/test".toList, some (.v4 ⟨10, 0, 0, 2⟩), ["198.51.100.7,192.168.1.10"]⟩ _
    [.v4 ⟨198, 51, 100, 7⟩, .v4 ⟨192, 168, 1, 10⟩] [.v4 ⟨203, 0, 113, 99⟩] _ rfl rfl
    ((h.2.2.2 _ _).1 (by rfl)) (by rfl) (by decide +kernel) ((h.2.2.2 _ _).1 (by rfl))

end HttpSupport
end Hegira
