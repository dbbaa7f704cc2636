import Spacegate.Kernel.HttpRoute

/-!
# Where a rule sends its requests

A service is read here as what it sends: `Runtime.sending` interprets the HTTP
client by the request that is handed to it, the file server by nothing, and a
timeout by the request unless the time was up before it was sent.

For a rule without plugins whose backends all have a host, the target of what is
sent depends on the balancer first.  A picked backend puts its own host, and its
own port if it has one, in place of the client's; without a pick the request goes
to the HTTP client as it came, with the target the client gave it.  A target that
cannot be built is not replaced, and nothing is said about it here.
-/

namespace Spacegate.Kernel

open Foundation.Text List Option

variable {Regex X Out : Type}

/-! ## The HTTP client -/

/-- `x_forwarded_for`: append the address of the peer. -/
def xForwardedFor (ipText : IpAddr → String) (req : SgRequest Regex X) :
    Option (SgRequest Regex X) :=
  match req.extensions.peerAddr with
  | some ip => do
      let value ← HeaderValue.fromStr (ipText ip)
      some { req with headers := req.headers ++ [("x-forwarded-for", value)] }
  | none => some req

/-- `u8::to_ascii_lowercase`. -/
def lowerByte (b : UInt8) : UInt8 :=
  if 65 ≤ b && b ≤ 90 then b + 32 else b

def isWebsocketUpgrade (req : SgRequest Regex X) : Bool :=
  (HeaderMap.get req.headers "upgrade").any fun upgrade =>
    upgrade.bytes.map lowerByte == strBytes "websocket"

/-- The request that `http_backend_service_inner` hands to the client; none when
it fails before.  The body of a websocket request is dumped first. -/
def httpBackendServiceInner (ipText : IpAddr → String) (dumpOk : SgRequest Regex X → Bool)
    (req : SgRequest Regex X) : Option (SgRequest Regex X) := do
  let req ← xForwardedFor ipText req
  if isWebsocketUpgrade req && !dumpOk req then none else some req

variable {ipText : IpAddr → String}

theorem xForwardedFor_uri {req req' : SgRequest Regex X}
    (h : xForwardedFor ipText req = some req') : req'.uri = req.uri := by
  unfold xForwardedFor at h
  split at h
  · obtain ⟨value, -, hv⟩ := bind_eq_some_iff.mp h
    rw [← some.inj hv]
  · rw [← some.inj h]

variable {req sent : SgRequest Regex X}

theorem httpBackendServiceInner_uri {dumpOk : SgRequest Regex X → Bool}
    (h : httpBackendServiceInner ipText dumpOk req = some sent) :
    sent.uri = req.uri := by
  obtain ⟨req', hf, hs⟩ := bind_eq_some_iff.mp h
  split at hs
  · exact absurd hs (by simp)
  · rw [← some.inj hs]
    exact xForwardedFor_uri hf

/-- The runtime in which a service is what it sends.  `elapsed` says which
timeouts are up before anything is sent. -/
def Runtime.sending (rt : Runtime Regex X Out) (ipText : IpAddr → String)
    (dumpOk : SgRequest Regex X → Bool) (elapsed : Nat → Bool) :
    Runtime Regex X (Option (SgRequest Regex X)) where
  stx := rt.stx
  httpBackendService := httpBackendServiceInner ipText dumpOk
  staticFileService := fun _ _ => none
  timeout := fun ms sent => if elapsed ms then none else sent
  fromBackend := id
  defer := rt.defer
  weightedIndexOk := rt.weightedIndexOk
  sample := rt.sample
  hashIp := rt.hashIp
  hashBytes := rt.hashBytes

/-! ## What a backend sends -/

section Sending

variable {rt : Runtime Regex X Out} {ipText : IpAddr → String}
  {dumpOk : SgRequest Regex X → Bool} {elapsed : Nat → Bool}

theorem layer_sent {timeout : RequestTimeout} {inner : Service Regex X (Option (SgRequest Regex X))}
    (h : timeout.layer (rt.sending ipText dumpOk elapsed) inner req = some sent) :
    inner req = some sent := by
  have ht : ∀ ms, (if elapsed ms then none else inner req) = some sent → inner req = some sent := by
    intro ms hs
    split at hs
    · exact absurd hs (by simp)
    · exact hs
  cases timeout with
  | default => exact ht defaultTimeout h
  | disabled => exact h
  | duration ms => exact ht ms h

theorem prepareRequest_uri_of_host (stx : UriSyntax) (host : String) (port : Option UInt16)
    (schema : Option String) (version : Option Version) (req : SgRequest Regex X) :
    (prepareRequest stx (.http (some host) port schema version) req).uri =
      (backendUri stx (some host) port schema req.uri).getD req.uri := rfl

theorem httpBackend_sent {backend : HttpBackend Regex X (Option (SgRequest Regex X))}
    {host : String} {port : Option UInt16} {schema : Option String} {version : Option Version}
    (hp : backend.plugins = [])
    (hb : backend.backend = .http (some host) port schema version)
    (hd : rt.defer req.extensions.other = none)
    (h : backend.asService (rt.sending ipText dumpOk elapsed) req = some sent) :
    sent.uri = (backendUri rt.stx (some host) port schema req.uri).getD req.uri := by
  rw [HttpBackend.asService, hp] at h
  have hc := layer_sent h
  rw [hb] at hc
  have hnd : rt.defer
      (prepareRequest rt.stx (.http (some host) port schema version) req).extensions.other =
      none := by
    exact hd
  have hs : httpBackendServiceInner ipText dumpOk
      (prepareRequest rt.stx (.http (some host) port schema version) req) = some sent := by
    simpa only [httpBackendServiceCall, Runtime.sending, hnd, id] using hc
  rw [httpBackendServiceInner_uri hs, prepareRequest_uri_of_host]

theorem backendUri_authority {stx : UriSyntax} {host : String} {port : Option UInt16}
    {schema : Option String} {uri uri' : Uri}
    (ht : ∀ s authority, stx.parseAuthority s = some authority → authority.text = s)
    (h : backendUri stx (some host) port schema uri = some uri') : uri'.authority.map (·.text) =
      some (authorityText host (port.or (uri.authority.bind (·.portU16)))) := by
  obtain ⟨scheme, -, hr⟩ := bind_eq_some_iff.mp h
  obtain ⟨authority, ha, hp⟩ := bind_eq_some_iff.mp hr
  cases hPq : uri.pathAndQuery with
  | none =>
    rw [hPq] at hp
    exact absurd hp (by simp [Uri.fromParts])
  | some pq =>
    rw [hPq] at hp
    rw [← some.inj hp]
    have hh := ht _ _ ha
    simpa [Uri.authority] using hh

end Sending

/-! ## What a rule sends -/

theorem pick_lt {rt : Runtime Regex X Out} {weights : List UInt16} {policy : BalancePolicyEnum}
    {instances i : Nat} {req : SgRequest Regex X}
    (h : policy.pick rt weights instances req = some i) : i < instances := by
  unfold BalancePolicyEnum.pick at h
  split at h
  · exact absurd h (by simp)
  · split at h
    · have hz : 0 = i := some.inj h
      omega
    · have hf := (filter_eq_some_iff.mp h).2
      simpa using hf

namespace HttpRouteRule

variable (rule : HttpRouteRule Regex X Out)

/-- Neither the rule nor a backend of it has plugins. -/
def WithoutPlugins : Prop :=
  rule.plugins = [] ∧ ∀ backend ∈ rule.backends, backend.plugins = []

/-- All backends are HTTP backends with a host. -/
def HostsConfigured : Prop :=
  ∀ backend ∈ rule.backends, ∃ host port schema version,
    backend.backend = .http (some host) port schema version

variable (rt : Runtime Regex X Out)

/-- The position of the backend that the rule's policy picks. -/
def picked (rule : HttpRouteRule Regex X Out) (req : SgRequest Regex X) : Option Nat :=
  rule.balancePolicy.pick rt (rule.backends.map (·.weight)) rule.backends.length req

/-- The target that a rule sends to, where it differs from the client's only by
a pick: the picked backend's host with its port, or with the client's port where
it has none. -/
def SendsTo (stx : UriSyntax) (rule : HttpRouteRule Regex X Out) (uri uri' : Uri) :
    Option Nat → Prop
  | none => uri' = uri
  | some i => ∃ backend host port schema version,
      rule.backends[i]? = some backend ∧ backend.backend = .http (some host) port schema version ∧
        ((backendUri stx (some host) port schema uri).isSome →
          uri'.authority.map (·.text) =
            some (authorityText host (port.or (uri.authority.bind (·.portU16)))))

end HttpRouteRule

/-! ## Concrete rules -/

/-- A runtime that neither draws nor hashes anything but zero. -/
def plainRuntime : Runtime LiteralRegex Unit Unit where
  stx := plainSyntax
  httpBackendService := fun _ => ()
  staticFileService := fun _ _ => ()
  timeout := fun _ _ => ()
  fromBackend := id
  defer := fun _ => none
  weightedIndexOk := fun weights => weights.any (· ≠ 0)
  sample := fun _ => 0
  hashIp := fun _ => 0
  hashBytes := fun _ => 0

/-- The runtime that says what is sent. -/
def plainSending : Runtime LiteralRegex Unit (Option (SgRequest LiteralRegex Unit)) :=
  plainRuntime.sending (fun _ => "10.0.0.1") (fun _ => true) (fun _ => false)

/-- A client's request for an absolute target. -/
def absoluteRequest (authority path : String) : SgRequest LiteralRegex Unit :=
  plainRequest (.absolute "http" ⟨authority, authority, none⟩ (cutPathAndQuery path))

/-- A rule without plugins over backends that have only a host and a port. -/
def ruleFor (backends : List (String × UInt16)) :
    HttpRouteRule LiteralRegex Unit (Option (SgRequest LiteralRegex Unit)) where
  «match» := none
  plugins := []
  timeout := .default
  backends := backends.map fun backend =>
    { plugins := []
      backend := .http (some backend.1) (some backend.2) none none
      weight := 1
      timeout := .default }
  balancePolicy := .ipHash

/-- The target has the host and port of a backend as its authority. -/
def HttpBackend.IsTarget {Regex X Out : Type} (backend : HttpBackend Regex X Out) (uri : Uri) :
    Prop :=
  ∃ host port schema version, backend.backend = .http (some host) port schema version ∧
    uri.authority.map (·.text) = some (authorityText host port)

end Spacegate.Kernel
