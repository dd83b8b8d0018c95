/-
# The keys of the quotas

`crates/http_support/src/rate_limit.rs`: `rate_limit_key` writes the method, the path and
the client's address one after another, with colons between them, and
`check_with_limiter` counts the requests of a key.  A path and an IPv6 text may contain
colons as well, so the key of one client can be that of another (`quota_keys_iff`).
-/

import Hegira.HttpSupport.ClientIp
import Hegira.HttpSupport.MemoryLimiter

namespace Hegira
namespace HttpSupport

variable {HeaderValue Net σ : Type} (lib : NetLibrary HeaderValue Net)

structure RateLimiter (Net : Type) where
  enabled : Bool
  maxRequests : ℕ
  window : ℕ
  clientIpResolver : ClientIpResolver Net

structure RateLimitOptions where
  enabled : Bool
  maxRequests : ℕ
  window : ℕ

/-- `RateLimiter::from_options`. -/
def RateLimiter.fromOptions (options : RateLimitOptions) (trustedProxies : List String) :
    Except String (RateLimiter Net) := do
  let clientIpResolver ← ClientIpResolver.fromTrustedProxies lib trustedProxies
  return {
    enabled := options.enabled
    maxRequests := max options.maxRequests 1
    window := max options.window second
    clientIpResolver }

/-- `rate_limit_key`. -/
def rateLimitKey (req : Request HeaderValue) (clientIp : IpAddr) : String :=
  String.ofList ("rate_limit:".toList ++ req.method.toList ++ ':' :: req.path ++
    ':' :: clientIp.toText)

/-- The answer of the middleware: the response of the inner service, or an error, with the
headers that are added. -/
inductive Response where
  | next (headers : List (String × String))
  | error (status : ℕ) (code message : String) (headers : List (String × String))
  deriving DecidableEq, Repr

/-- `write_rate_limit_headers`. -/
def rateLimitHeaders (decision : RateLimitDecision) : List (String × String) :=
  [("x-ratelimit-limit", toString decision.limit),
    ("x-ratelimit-remaining", toString decision.remaining),
    ("x-ratelimit-reset", toString decision.resetSeconds)] ++
      (decision.retryAfterSeconds.map fun retryAfter =>
        ("retry-after", toString retryAfter)).toList

/-- `check_with_limiter` with a backend's `check`. -/
def checkWithLimiter (check : σ → Call → Except String RateLimitDecision × σ)
    (limiter : RateLimiter Net) (backend : σ) (req : Request HeaderValue) (now : ℕ) :
    Response × σ :=
  if !limiter.enabled || req.method ≠ "POST" then (.next [], backend)
  else
    match limiter.clientIpResolver.resolve lib req with
    | .error .invalidForwardedFor =>
        (.error 400 "request:invalid_forwarded_for" "invalid forwarded client address" [],
          backend)
    | .error .missingPeerAddress =>
        (.error 500 "system:rate_limiter_error" "internal server error" [], backend)
    | .ok clientIp =>
        match check backend ⟨rateLimitKey req clientIp, now⟩ with
        | (.error _, backend) =>
            (.error 500 "system:rate_limiter_error" "internal server error" [], backend)
        | (.ok decision, backend) =>
            if decision.allowed then (.next (rateLimitHeaders decision), backend)
            else (.error 429 "rate_limit:exceeded" "too many requests"
              (rateLimitHeaders decision), backend)

/-! ### When two requests share a key -/

/-- The address ends in a colon and the other address, and the other path is the path with
a colon and what stands before. -/
def Overlaps (path path' : List Char) (ip ip' : IpAddr) : Prop :=
  ∃ groups, path' = path ++ ':' :: groups ∧ ip.toText = groups ++ ':' :: ip'.toText

/-- Two texts joined by a colon agree at the same colon or at another one. -/
theorem append_colon_eq_iff {a b x y : List Char} :
    a ++ ':' :: x = b ++ ':' :: y ↔ (a = b ∧ x = y) ∨
      (∃ groups, b = a ++ ':' :: groups ∧ x = groups ++ ':' :: y) ∨
      ∃ groups, a = b ++ ':' :: groups ∧ y = groups ++ ':' :: x := by
  constructor
  · intro h
    obtain ⟨rest, hb, hx⟩ | ⟨rest, ha, hy⟩ := List.append_eq_append_iff.1 h
    · cases rest with
      | nil =>
          rw [List.append_nil] at hb
          exact Or.inl ⟨hb.symm, (List.cons.inj hx).2⟩
      | cons c groups =>
          obtain ⟨rfl, -⟩ := List.cons.inj hx
          have hx := (List.cons.inj hx).2
          exact Or.inr (Or.inl ⟨groups, hb, hx⟩)
    · cases rest with
      | nil =>
          rw [List.append_nil] at ha
          exact Or.inl ⟨ha, ((List.cons.inj hy).2).symm⟩
      | cons c groups =>
          obtain ⟨rfl, -⟩ := List.cons.inj hy
          have hy := (List.cons.inj hy).2
          exact Or.inr (Or.inr ⟨groups, ha, hy⟩)
  · rintro (⟨rfl, rfl⟩ | ⟨groups, rfl, rfl⟩ | ⟨groups, rfl, rfl⟩)
    · rfl
    · rw [List.append_assoc, List.cons_append]
    · rw [List.append_assoc, List.cons_append]

variable {lib} {req req' : Request HeaderValue} {ip ip' : IpAddr}

/-- When two requests of one method have one key. -/
theorem rateLimitKey_eq_iff (hmethod : req.method = req'.method) :
    rateLimitKey req ip = rateLimitKey req' ip' ↔
      (req.path = req'.path ∧ ip = ip') ∨ Overlaps req.path req'.path ip ip' ∨
        Overlaps req'.path req.path ip' ip := by
  unfold rateLimitKey
  rw [hmethod]
  generalize "rate_limit:".toList ++ req'.method.toList = start
  rw [String.ofList_inj, List.append_assoc, List.append_assoc, List.append_right_inj,
    List.cons_append, List.cons_append, List.cons_inj_right, append_colon_eq_iff,
    IpAddr.toText_injective.eq_iff]
  rfl

/-- The path of an overlap is the longer one. -/
theorem Overlaps.length_lt {path path' : List Char} (h : Overlaps path path' ip ip') :
    path.length < path'.length := by
  obtain ⟨groups, rfl, -⟩ := h
  rw [List.length_append, List.length_cons]
  omega

/-- **Only IPv6 addresses overlap.** -/
theorem Overlaps.v6 {path path' : List Char} (h : Overlaps path path' ip ip')
    (hip : normalizeIp ip = ip) : ∃ a b, ip = .v6 a ∧ ip' = .v6 b := by
  obtain ⟨groups, -, htext⟩ := h
  cases ip with
  | v4 a =>
      have hcolon : ':' ∈ a.toText := by
        rw [show a.toText = _ from htext]
        exact List.mem_append_right _ List.mem_cons_self
      exact absurd hcolon a.colon_notMem_toText
  | v6 a =>
      cases ip' with
      | v6 b => exact ⟨a, b, rfl, rfl⟩
      | v4 b =>
          have hdot : '.' ∈ a.toText := by
            rw [show a.toText = _ from htext]
            exact List.mem_append_right _ (List.mem_cons_of_mem _ b.dot_mem_toText)
          cases hmapped : a.toIpv4Mapped with
          | none => exact absurd hmapped (Ipv6Addr.dot_mem_toText.1 hdot)
          | some ipv4 =>
              rw [normalizeIp, hmapped] at hip
              cases hip

/-! ### Quotas -/

/-- A request that is counted: it is a POST and its client is known. -/
structure Counted (lib : NetLibrary HeaderValue Net) (resolver : ClientIpResolver Net) where
  req : Request HeaderValue
  clientIp : IpAddr
  post : req.method = "POST"
  resolved : resolver.resolve lib req = .ok clientIp

variable {resolver : ClientIpResolver Net}

def Counted.key (r : Counted lib resolver) : String := rateLimitKey r.req r.clientIp

/-- The memory limiter as a backend. -/
def memoryBackend (limiter : RateLimiter Net) (backend : MemoryRateLimiter) (call : Call) :
    Except String RateLimitDecision × MemoryRateLimiter :=
  let (decision, backend) := backend.check limiter.maxRequests limiter.window call
  (.ok decision, backend)

/-- The call a request is counted as, if it is. -/
def countedCall (lib : NetLibrary HeaderValue Net) (resolver : ClientIpResolver Net)
    (request : Request HeaderValue × ℕ) : Option Call :=
  if request.1.method = "POST" then
    (resolver.resolve lib request.1).toOption.map fun clientIp =>
      ⟨rateLimitKey request.1 clientIp, request.2⟩
  else none

/-- The answer to a counted request. -/
def limited (decision : RateLimitDecision) : Response :=
  if decision.allowed then .next (rateLimitHeaders decision)
  else .error 429 "rate_limit:exceeded" "too many requests" (rateLimitHeaders decision)

/-- The call of a request that is counted. -/
theorem countedCall_eq_some_iff {request : Request HeaderValue × ℕ} {call : Call} :
    countedCall lib resolver request = some call ↔ ∃ r : Counted lib resolver,
      r.req = request.1 ∧ call = ⟨r.key, request.2⟩ := by
  unfold countedCall
  constructor
  · intro h
    split at h
    · next hpost =>
        obtain ⟨clientIp, hclient, rfl⟩ := Option.map_eq_some_iff.1 h
        cases hresolved : resolver.resolve lib request.1 with
        | error e =>
            rw [hresolved] at hclient
            cases hclient
        | ok found =>
            rw [hresolved] at hclient
            cases hclient
            exact ⟨⟨request.1, clientIp, hpost, hresolved⟩, rfl, rfl⟩
    · cases h
  · rintro ⟨r, hreq, rfl⟩
    rw [← hreq, if_pos r.post, r.resolved]
    rfl

/-- A counted request is one call of the limiter, on its key. -/
theorem checkWithLimiter_counted {limiter : RateLimiter Net} (henabled : limiter.enabled = true)
    (backend : MemoryRateLimiter) {request : Request HeaderValue × ℕ} {call : Call}
    (h : countedCall lib limiter.clientIpResolver request = some call) :
    checkWithLimiter lib (memoryBackend limiter) limiter backend request.1 request.2 =
      (limited (backend.check limiter.maxRequests limiter.window call).1,
        (backend.check limiter.maxRequests limiter.window call).2) := by
  obtain ⟨r, hreq, rfl⟩ := countedCall_eq_some_iff.1 h
  have hbypass : (!limiter.enabled || decide (r.req.method ≠ "POST")) = false := by
    rw [henabled, r.post]
    rfl
  rw [← hreq, checkWithLimiter, hbypass, r.resolved]
  simp only [memoryBackend, Counted.key]
  split
  · next h => cases h
  · split
    · next hallowed => rw [limited, if_pos hallowed]
    · next hallowed => rw [limited, if_neg hallowed]

/-- Every other request leaves the limiter as it is. -/
theorem checkWithLimiter_bypass {limiter : RateLimiter Net}
    {check : σ → Call → Except String RateLimitDecision × σ} {backend : σ}
    {request : Request HeaderValue × ℕ}
    (h : countedCall lib limiter.clientIpResolver request = none) :
    (checkWithLimiter lib check limiter backend request.1 request.2).2 = backend := by
  rw [checkWithLimiter]
  by_cases hbypass : (!limiter.enabled || decide (request.1.method ≠ "POST")) = true
  · rw [if_pos hbypass]
  · rw [if_neg hbypass]
    cases hresolved : limiter.clientIpResolver.resolve lib request.1 with
    | error error => cases error <;> rfl
    | ok clientIp =>
        have hpost : request.1.method = "POST" := by
          by_contra hpost
          exact hbypass (by simp [hpost])
        rw [countedCall, if_pos hpost, hresolved] at h
        cases h

/-- The requests the middleware has seen, with its answers, and what it has counted. -/
def answers (lib : NetLibrary HeaderValue Net) (limiter : RateLimiter Net)
    (requests : List (Request HeaderValue × ℕ)) :
    List ((Request HeaderValue × ℕ) × Response) × MemoryRateLimiter :=
  replay (fun backend request =>
    checkWithLimiter lib (memoryBackend limiter) limiter backend request.1 request.2) {} requests

/-- The counted requests are the calls of the limiter, and are answered by its decisions. -/
theorem answers_counted {limiter : RateLimiter Net} (henabled : limiter.enabled = true)
    (requests : List (Request HeaderValue × ℕ)) :
    let counted := memoryHistory limiter.maxRequests limiter.window
      (requests.filterMap (countedCall lib limiter.clientIpResolver))
    (answers lib limiter requests).1.filterMap (fun e =>
        (countedCall lib limiter.clientIpResolver e.1).map fun call => (call, e.2)) =
      counted.1.map (fun e => (e.1, limited e.2)) ∧
    (answers lib limiter requests).2 = counted.2 := by
  induction requests using List.reverseRecOn with
  | nil => exact ⟨rfl, rfl⟩
  | append_singleton requests request ih =>
      obtain ⟨hanswers, hbackend⟩ := ih
      rw [answers, replay_append_singleton, ← answers, List.filterMap_append]
      cases hcall : countedCall lib limiter.clientIpResolver request with
      | none =>
          have hsame : (checkWithLimiter lib (memoryBackend limiter) limiter
              (answers lib limiter requests).2 request.1 request.2).2 =
                (answers lib limiter requests).2 := checkWithLimiter_bypass hcall
          exact ⟨by simp [hcall, hanswers], by simpa [hcall] using hsame.trans hbackend⟩
      | some call =>
          simp [hcall, hanswers, hbackend, checkWithLimiter_counted henabled _ hcall,
            memoryHistory, replay_append_singleton]

/-- The same path and the same client. -/
def Counted.Same (r r' : Counted lib resolver) : Prop :=
  r.req.path = r'.req.path ∧ r.clientIp = r'.clientIp

instance (r r' : Counted lib resolver) : Decidable (r.Same r') :=
  inferInstanceAs (Decidable (_ ∧ _))

/-- Neither key can be read as the other. -/
def Counted.Apart (r r' : Counted lib resolver) : Prop :=
  ¬Overlaps r.req.path r'.req.path r.clientIp r'.clientIp ∧
    ¬Overlaps r'.req.path r.req.path r'.clientIp r.clientIp

/-- Keys agree for one path and client, and in no other way unless they overlap. -/
theorem Counted.key_eq_iff (r r' : Counted lib resolver) :
    r.key = r'.key ↔ r.Same r' ∨ ¬r.Apart r' := by
  rw [key, key, rateLimitKey_eq_iff (r.post.trans r'.post.symm), Same, Apart,
    not_and_or, not_not, not_not]

/-- So they tell path and client exactly when they do not overlap. -/
theorem Counted.key_eq_iff_same {r r' : Counted lib resolver} :
    (r.key = r'.key ↔ r.Same r') ↔ r.Apart r' := by
  rw [key_eq_iff]
  constructor
  · intro h
    by_contra hapart
    obtain ⟨hpath, -⟩ := h.1 (Or.inr hapart)
    rw [Apart, not_and_or, not_not, not_not] at hapart
    obtain hoverlap | hoverlap := hapart
    · exact absurd hoverlap.length_lt (by rw [hpath]; exact lt_irrefl _)
    · exact absurd hoverlap.length_lt (by rw [hpath]; exact lt_irrefl _)
  · exact fun h => ⟨fun hs => hs.resolve_right (not_not.2 h), Or.inl⟩

/-- Only IPv6 clients overlap. -/
theorem Counted.v6_of_not_apart {r r' : Counted lib resolver} (h : ¬r.Apart r') :
    ∃ a b, r.clientIp = .v6 a ∧ r'.clientIp = .v6 b := by
  rw [Apart, not_and_or, not_not, not_not] at h
  obtain h | h := h
  · exact h.v6 (ClientIpResolver.normal_of_resolve r.resolved)
  · obtain ⟨a, b, ha, hb⟩ := h.v6 (ClientIpResolver.normal_of_resolve r'.resolved)
    exact ⟨b, a, hb, ha⟩

/-- A counted request as a call of the limiter. -/
def Counted.call (request : Counted lib resolver × ℕ) : Call := ⟨request.1.key, request.2⟩

/-- The requests of one path and client are limited as if there were no others. -/
theorem Counted.isolated {r : Counted lib resolver} {requests : List (Counted lib resolver × ℕ)}
    (hclock : requests.Pairwise (·.2 ≤ ·.2)) (hapart : ∀ q ∈ requests, q.1.Apart r)
    (maxRequests window : ℕ) :
    (memoryHistory maxRequests window (requests.map Counted.call)).1.filter
        (fun e => e.1.key = r.key) =
      (memoryHistory maxRequests window
        ((requests.filter fun q => q.1.Same r).map Counted.call)).1 := by
  have hcalls : (requests.map Counted.call).filter (fun call => call.key = r.key) =
      (requests.filter fun q => q.1.Same r).map Counted.call := by
    rw [List.filter_map]
    refine congrArg _ (List.filter_congr fun q hq => decide_eq_decide.2 ?_)
    exact key_eq_iff_same.2 (hapart q hq)
  rw [← hcalls]
  exact (memoryHistory_filter_key (List.pairwise_map.2 hclock) r.key).symm

/-- The request is counted, with the path and the client of this one. -/
def Counted.asks (r : Counted lib resolver) (req : Request HeaderValue) : Bool :=
  req.method = "POST" && req.path = r.req.path &&
    (resolver.resolve lib req).toOption = some r.clientIp

/-- Where none overlaps, a key is asked for by its own path and client. -/
theorem Counted.asks_eq {r : Counted lib resolver} {request : Request HeaderValue × ℕ}
    (hapart : ∀ c : Counted lib resolver, c.req = request.1 → c.Apart r) :
    r.asks request.1 =
      (countedCall lib resolver request).any fun call => decide (call.key = r.key) := by
  unfold asks countedCall
  by_cases hpost : request.1.method = "POST"
  · rw [if_pos hpost]
    cases hresolved : resolver.resolve lib request.1 with
    | error e => simp [hpost, Except.toOption]
    | ok clientIp =>
        have hkey := key_eq_iff_same.2 (hapart ⟨request.1, clientIp, hpost, hresolved⟩ rfl)
        rw [Same, key] at hkey
        simp [hpost, Except.toOption, hkey]
  · simp [hpost]

/-- The requests that ask are those counted under the key. -/
theorem Counted.filterMap_countedCall {r : Counted lib resolver}
    {requests : List (Request HeaderValue × ℕ)} (hapart : ∀ request ∈ requests,
      ∀ c : Counted lib resolver, c.req = request.1 → c.Apart r) :
    (requests.filter fun request => r.asks request.1).filterMap (countedCall lib resolver) =
      (requests.filterMap (countedCall lib resolver)).filter fun call => call.key = r.key := by
  induction requests with
  | nil => rfl
  | cons request requests ih =>
      have hasks := asks_eq (r := r) (hapart request List.mem_cons_self)
      have ih := ih fun request h => hapart request (List.mem_cons_of_mem _ h)
      cases hcall : countedCall lib resolver request with
      | none => simp [hcall, hasks, ih]
      | some call =>
          by_cases hkey : call.key = r.key <;> simp [hcall, hasks, hkey, ih]

/-- Where none overlaps, the answers of a key are those of its own requests. -/
theorem Counted.map_snd_filter_asks {α : Type} {r : Counted lib resolver}
    {history : List ((Request HeaderValue × ℕ) × α)} (hapart : ∀ e ∈ history,
      ∀ c : Counted lib resolver, c.req = e.1.1 → c.Apart r) :
    (history.filter fun e => r.asks e.1.1).map Prod.snd =
      ((history.filterMap fun e => (countedCall lib resolver e.1).map fun call =>
        (call, e.2)).filter fun e => e.1.key = r.key).map Prod.snd := by
  induction history with
  | nil => rfl
  | cons e history ih =>
      have hasks := asks_eq (r := r) (hapart e List.mem_cons_self)
      have ih := ih fun e h => hapart e (List.mem_cons_of_mem _ h)
      cases hcall : countedCall lib resolver e.1 with
      | none => simp [hcall, hasks, ih]
      | some call =>
          by_cases hkey : call.key = r.key <;> simp [hcall, hasks, hkey, ih]

/-- The requests of one key are answered by the history of its calls. -/
theorem Counted.answers_eq {limiter : RateLimiter Net} (henabled : limiter.enabled = true)
    {r : Counted lib limiter.clientIpResolver} {requests : List (Request HeaderValue × ℕ)}
    (hclock : requests.Pairwise (·.2 ≤ ·.2)) (hapart : ∀ request ∈ requests,
      ∀ c : Counted lib limiter.clientIpResolver, c.req = request.1 → c.Apart r) :
    (answers lib limiter requests).1.filter (fun e => r.asks e.1.1) =
      (requests.filter fun request => r.asks request.1).zip
        ((memoryHistory limiter.maxRequests limiter.window
          ((requests.filterMap (countedCall lib limiter.clientIpResolver)).filter fun call =>
            call.key = r.key)).1.map fun e => limited e.2) := by
  have hrequests : (answers lib limiter requests).1.map Prod.fst = requests := replay_calls _ _ requests
  have hcalls : (requests.filterMap (countedCall lib limiter.clientIpResolver)).Pairwise
      (·.now ≤ ·.now) := by
    refine hclock.filterMap _ fun a b hab c hc c' hc' => ?_
    obtain ⟨_, -, rfl⟩ := countedCall_eq_some_iff.1 hc
    obtain ⟨_, -, rfl⟩ := countedCall_eq_some_iff.1 hc'
    exact hab
  refine List.zip_of_prod ?_ ?_
  · conv_rhs => rw [← hrequests, List.filter_map]
    rfl
  · rw [map_snd_filter_asks fun e he => hapart e.1 (by
        rw [← hrequests]
        exact List.mem_map_of_mem he),
      (answers_counted henabled requests).1, memoryHistory_filter_key hcalls, List.filter_map,
      List.map_map]
    rfl

/-- The middleware answers the requests of one path and client as if there were no others. -/
theorem Counted.answers_isolated {limiter : RateLimiter Net} (henabled : limiter.enabled = true)
    {r : Counted lib limiter.clientIpResolver} {requests : List (Request HeaderValue × ℕ)}
    (hclock : requests.Pairwise (·.2 ≤ ·.2)) (hapart : ∀ request ∈ requests,
      ∀ c : Counted lib limiter.clientIpResolver, c.req = request.1 → c.Apart r) :
    (answers lib limiter requests).1.filter (fun e => r.asks e.1.1) =
      (answers lib limiter (requests.filter fun request => r.asks request.1)).1 := by
  have hmem : ∀ request ∈ requests.filter fun request => r.asks request.1, request ∈ requests :=
    fun request h => (List.mem_filter.1 h).1
  have hasked : ∀ e ∈ (answers lib limiter (requests.filter fun request => r.asks request.1)).1,
      r.asks e.1.1 = true := by
    intro e he
    have hrequest := List.mem_map_of_mem (f := Prod.fst) he
    rw [answers, replay_calls] at hrequest
    exact (List.mem_filter.1 hrequest).2
  rw [answers_eq henabled hclock hapart, ← List.filter_eq_self.2 hasked,
    answers_eq henabled (hclock.filter _) fun request h => hapart request (hmem request h),
    filterMap_countedCall hapart, List.filter_filter, List.filter_filter]
  simp only [Bool.and_self]

/-- **Quota isolation.**  Two counted requests have the same key exactly when they have the
same method, path and client, just when neither address ends in a colon and the other
address while the paths differ by a colon and the rest.  Requests for which they do are
both from IPv6 clients.  Among requests that are apart from it, the requests of one path
and client get the decisions they would get alone, and the answers of the middleware,
whatever other requests it sees. -/
theorem quota_keys_iff (lib : NetLibrary HeaderValue Net) (resolver : ClientIpResolver Net)
    (r r' : Counted lib resolver) :
    ((rateLimitKey r.req r.clientIp = rateLimitKey r'.req r'.clientIp ↔
      r.req.method = r'.req.method ∧ r.req.path = r'.req.path ∧ r.clientIp = r'.clientIp) ↔
        r.Apart r') ∧
    (¬r.Apart r' → ∃ a b, r.clientIp = .v6 a ∧ r'.clientIp = .v6 b) ∧
    (∀ (maxRequests window : ℕ) (requests : List (Counted lib resolver × ℕ)),
      requests.Pairwise (·.2 ≤ ·.2) → (∀ q ∈ requests, q.1.Apart r) →
      (memoryHistory maxRequests window (requests.map Counted.call)).1.filter
          (fun e => e.1.key = r.key) =
        (memoryHistory maxRequests window
          ((requests.filter fun q => q.1.Same r).map Counted.call)).1) ∧
    ∀ (maxRequests window : ℕ) (requests : List (Request HeaderValue × ℕ)),
      requests.Pairwise (·.2 ≤ ·.2) → (∀ request ∈ requests, ∀ c : Counted lib resolver,
        c.req = request.1 → c.Apart r) →
      let limiter : RateLimiter Net := ⟨true, maxRequests, window, resolver⟩
      (answers lib limiter requests).1.filter (fun e => r.asks e.1.1) =
        (answers lib limiter (requests.filter fun request => r.asks request.1)).1 := by
  have hmethod : r.req.method = r'.req.method := r.post.trans r'.post.symm
  refine ⟨?_, Counted.v6_of_not_apart,
    fun maxRequests window requests hclock hapart =>
      Counted.isolated hclock hapart maxRequests window,
    fun maxRequests window _ hclock hapart =>
      @Counted.answers_isolated _ _ _ ⟨true, maxRequests, window, resolver⟩ rfl r _ hclock hapart⟩
  rw [← Counted.key_eq_iff_same, Counted.Same, Counted.key, Counted.key]
  simp only [hmethod, true_and]

/-- A POST without proxies. -/
def posted (path : String) (peer : IpAddr) : Request String :=
  ⟨"POST", path.toList, some peer, []⟩

/-- `2001:db8::1`. -/
def documentation : Ipv6Addr := ⟨[0x2001, 0xdb8, 0, 0, 0, 0, 0, 1], rfl⟩

/-- `db8::1`. -/
def shorter : Ipv6Addr := ⟨[0xdb8, 0, 0, 0, 0, 0, 0, 1], rfl⟩

/-- `POST /login` from `2001:db8::1` and `POST /login:2001` from `db8::1` share a key. -/
theorem shared_quota_key :
    ClientIpResolver.resolve eightBitNetworks ⟨[]⟩ (posted "/login" (.v6 documentation)) =
        .ok (.v6 documentation) ∧
      ClientIpResolver.resolve eightBitNetworks ⟨[]⟩ (posted "/login:2001" (.v6 shorter)) =
        .ok (.v6 shorter) ∧
      rateLimitKey (posted "/login" (.v6 documentation)) (.v6 documentation) =
        rateLimitKey (posted "/login:2001" (.v6 shorter)) (.v6 shorter) ∧
      documentation ≠ shorter :=
  ⟨by rfl, by rfl, by decide +kernel, by decide⟩

/-- Two clients with IPv4 addresses have quotas of their own. -/
theorem quota_keys_of_ipv4 :
    let a : Counted eightBitNetworks ⟨[]⟩ :=
      ⟨posted "/login" (.v4 ⟨198, 51, 100, 1⟩), .v4 ⟨198, 51, 100, 1⟩, rfl, rfl⟩
    let b : Counted eightBitNetworks ⟨[]⟩ :=
      ⟨posted "/login" (.v4 ⟨198, 51, 100, 2⟩), .v4 ⟨198, 51, 100, 2⟩, rfl, rfl⟩
    rateLimitKey a.req a.clientIp ≠ rateLimitKey b.req b.clientIp := by
  intro a b h
  have hapart : a.Apart b := by
    by_contra hnot
    obtain ⟨_, _, hv6, -⟩ := (quota_keys_iff eightBitNetworks ⟨[]⟩ a b).2.1 hnot
    cases hv6
  have hsame := (((quota_keys_iff eightBitNetworks ⟨[]⟩ a b).1.2 hapart).1 h).2.2
  exact absurd hsame (by decide)

end HttpSupport
end Hegira
