import Spacegate.Config.K8sGatewayConv

/-!
# Listeners of a Kubernetes gateway

`retrieve_config_item_listeners` turns the listeners of a Gateway object into
listener configurations.  The certificate of an HTTPS listener is looked up in a
secret of the cluster; `LacksCertificate` lists what can be missing on the way, and
in each of these cases the listener is configured for plain HTTP.
-/

namespace Spacegate.Config

open Foundation Model List Option Except
open Kube (SecretObjectReference GatewayTlsConfig Listener Secret)

/-- The cluster as the client sees it: an answer for every secret's name in the
namespace of the configuration, or an error of the request. -/
structure Cluster where
  getOpt : (name : String) → Except String (Option Secret)

inductive RetrieveError where
  | kube (message : String)
  | unsupportedProtocol
  | panicked (message : String)
  deriving DecidableEq, Repr

/-- `str::to_lowercase`, as far as the words that are compared with go: outside ASCII
no letter has a letter of these words as its lower case. -/
def toLowercase (s : String) : String :=
  String.ofList (s.toList.map Char.toLower)

/-- `SgTlsMode::from(Option<String>)`. -/
def tlsMode (mode : Option String) : SgTlsMode :=
  if toLowercase (mode.getD "") = "terminate" then .terminate else .passthrough

/-- `retrieve_http2_config`. -/
def retrieveHttp2Config (tlsConfig : GatewayTlsConfig) : Bool :=
  match tlsConfig.options with
  | some options => options.lookup "http2" == some "true"
  | none => false

/-- `String::from_utf8(..).expect(message)`. -/
def expectUtf8 (message : String) (bytes : List UInt8) : Except RetrieveError String :=
  match String.fromUTF8? (ByteArray.mk bytes.toArray) with
  | some text => .ok text
  | none => .error (.panicked message)

def retrieveTlsConfig (tlsConfig : GatewayTlsConfig) (tlsCrt tlsKey : List UInt8) :
    Except RetrieveError SgTlsConfig := do
  let key ← expectUtf8 "[SG.Config] Gateway tls secret [tls.key] is not valid utf8" tlsKey
  let cert ← expectUtf8 "[SG.Config] Gateway tls secret [tls.cert] is not valid utf8" tlsCrt
  return {
    mode := tlsMode tlsConfig.mode
    key := key
    cert := cert
    http2 := some (retrieveHttp2Config tlsConfig) }

variable (cluster : Cluster)

/-- The protocol of a listener that is declared as HTTPS. -/
def httpsProtocol (listener : Listener) : Except RetrieveError SgProtocolConfig :=
  match listener.tls with
  | none => .ok .http
  | some tlsConfig =>
    match tlsConfig.certificateRefs.bind head? with
    | none => .ok .http
    | some certificateRef =>
      match cluster.getOpt certificateRef.name with
      | .error e => .error (.kube e)
      | .ok none => .ok .http
      | .ok (some secretObj) =>
        match secretObj.data with
        | none => .ok .http
        | some secretData =>
          match secretData.lookup "tls.crt", secretData.lookup "tls.key" with
          | some tlsCrt, some tlsKey =>
            (retrieveTlsConfig tlsConfig tlsCrt tlsKey).map .https
          | _, _ => .ok .http

def retrieveProtocol (listener : Listener) : Except RetrieveError SgProtocolConfig :=
  if toLowercase listener.protocol = "http" then .ok .http
  else if toLowercase listener.protocol = "https" then httpsProtocol cluster listener
  else .error .unsupportedProtocol

def retrieveListener (listener : Listener) : Except RetrieveError SgListener :=
  (retrieveProtocol cluster listener).map fun protocol =>
    { name := listener.name
      ip := none
      port := listener.port
      protocol := protocol
      hostname := listener.hostname }

/-- `retrieve_config_item_listeners`.  The lookups run concurrently, but none changes
the cluster; of several failures the first one is reported here. -/
def retrieveConfigItemListeners (listeners : List Listener) :
    Except RetrieveError (List SgListener) :=
  listeners.mapM (retrieveListener cluster)

/-! ## The certificate of a listener -/

def Kube.Listener.DeclaresHttps (listener : Listener) : Prop :=
  toLowercase listener.protocol = "https"

instance (listener : Listener) : Decidable listener.DeclaresHttps :=
  inferInstanceAs (Decidable (_ = _))

/-- The certificate and the key that the listener's first reference leads to. -/
structure HasCertificate (cluster : Cluster) (listener : Listener) (tlsCrt tlsKey : List UInt8) :
    Prop where
  exists_secret : ∃ tlsConfig refs certificateRef secretObj secretData,
    listener.tls = some tlsConfig ∧ tlsConfig.certificateRefs = some (certificateRef :: refs) ∧
      cluster.getOpt certificateRef.name = .ok (some secretObj) ∧
      secretObj.data = some secretData ∧
      secretData.lookup "tls.crt" = some tlsCrt ∧ secretData.lookup "tls.key" = some tlsKey

/-- What can be missing between an HTTPS listener and its certificate. -/
inductive LacksCertificate (cluster : Cluster) (listener : Listener) : Prop
  | noTls (hTls : listener.tls = none)
  | noRef (tlsConfig : GatewayTlsConfig) (hTls : listener.tls = some tlsConfig)
      (hRefs : tlsConfig.certificateRefs = none ∨ tlsConfig.certificateRefs = some [])
  | noSecret (tlsConfig : GatewayTlsConfig) (certificateRef : SecretObjectReference)
      (refs : List SecretObjectReference) (hTls : listener.tls = some tlsConfig)
      (hRefs : tlsConfig.certificateRefs = some (certificateRef :: refs))
      (hSecret : cluster.getOpt certificateRef.name = .ok none)
  | noTlsKeys (tlsConfig : GatewayTlsConfig) (certificateRef : SecretObjectReference)
      (refs : List SecretObjectReference) (secretObj : Secret)
      (hTls : listener.tls = some tlsConfig)
      (hRefs : tlsConfig.certificateRefs = some (certificateRef :: refs))
      (hSecret : cluster.getOpt certificateRef.name = .ok (some secretObj))
      (hData : secretObj.data = none ∨ ∃ secretData, secretObj.data = some secretData ∧
        (secretData.lookup "tls.crt" = none ∨ secretData.lookup "tls.key" = none))

variable {cluster : Cluster} {listener : Listener}

theorem not_hasCertificate_of_lacks
    (h : LacksCertificate cluster listener) (tlsCrt tlsKey : List UInt8) :
    ¬ HasCertificate cluster listener tlsCrt tlsKey := by
  rintro ⟨tlsConfig, refs, ref, secretObj, secretData, hTls, hr, hs, hd, hCrt, hKey⟩
  cases h with
  | noTls ht' => simp [hTls] at ht'
  | noRef _ ht' hr' =>
    obtain rfl := some.inj (hTls.symm.trans ht')
    simp [hr] at hr'
  | noSecret _ _ _ ht' hr' hs' =>
    obtain rfl := some.inj (hTls.symm.trans ht')
    obtain ⟨rfl, -⟩ := cons.inj (some.inj (hr.symm.trans hr'))
    simp [hs] at hs'
  | noTlsKeys _ _ _ _ ht' hr' hs' hd' =>
    obtain rfl := some.inj (hTls.symm.trans ht')
    obtain ⟨rfl, -⟩ := cons.inj (some.inj (hr.symm.trans hr'))
    obtain rfl := some.inj (ok.inj (hs.symm.trans hs'))
    rcases hd' with hn | ⟨data, hSome, hm⟩
    · simp [hd] at hn
    · obtain rfl := some.inj (hd.symm.trans hSome)
      rw [hCrt, hKey] at hm
      exact absurd hm (by simp)

theorem expectUtf8_eq_ok {message : String} {bytes : List UInt8} {text : String}
    (h : expectUtf8 message bytes = .ok text) :
    String.fromUTF8? (ByteArray.mk bytes.toArray) = some text := by
  unfold expectUtf8 at h
  split at h
  · rename_i text' ht
    rw [ht, ok.inj h]
  · exact absurd h (by simp)

/-- The texts of a certificate and its key. -/
def IsTextOf (tls : SgTlsConfig) (tlsCrt tlsKey : List UInt8) : Prop :=
  String.fromUTF8? (ByteArray.mk tlsCrt.toArray) = some tls.cert ∧
    String.fromUTF8? (ByteArray.mk tlsKey.toArray) = some tls.key

theorem retrieveTlsConfig_eq_ok {tlsConfig : GatewayTlsConfig} {tlsCrt tlsKey : List UInt8}
    {tls : SgTlsConfig} (h : retrieveTlsConfig tlsConfig tlsCrt tlsKey = .ok tls) :
    IsTextOf tls tlsCrt tlsKey := by
  obtain ⟨key, hKey, h⟩ := exists_of_bind_eq_ok h
  obtain ⟨cert, hc, h⟩ := exists_of_bind_eq_ok h
  cases ok.inj h
  exact ⟨expectUtf8_eq_ok hc, expectUtf8_eq_ok hKey⟩

/-- What an HTTPS listener becomes: plain HTTP without a certificate, and otherwise
TLS with the texts of the certificate and the key. -/
theorem httpsProtocol_eq_ok
    {protocol : SgProtocolConfig} (h : httpsProtocol cluster listener = .ok protocol) :
    (LacksCertificate cluster listener ∧ protocol = .http) ∨
      ∃ tls tlsCrt tlsKey, HasCertificate cluster listener tlsCrt tlsKey ∧
        IsTextOf tls tlsCrt tlsKey ∧ protocol = .https tls := by
  unfold httpsProtocol at h
  split at h
  · rename_i hTls
    exact .inl ⟨.noTls hTls, (ok.inj h).symm⟩
  rename_i tlsConfig hTls
  rcases hr : tlsConfig.certificateRefs with _ | _ | ⟨ref, refs⟩ <;>
    simp only [hr, bind_none, bind_some, head?_nil, head?_cons] at h
  · exact .inl ⟨.noRef tlsConfig hTls (.inl hr), (ok.inj h).symm⟩
  · exact .inl ⟨.noRef tlsConfig hTls (.inr hr), (ok.inj h).symm⟩
  split at h
  · exact absurd h (by simp)
  · rename_i hs
    exact .inl ⟨.noSecret tlsConfig ref refs hTls hr hs, (ok.inj h).symm⟩
  rename_i secretObj hs
  -- the data may be missing as a whole or one of its two keys
  have hl : (secretObj.data = none ∨ ∃ secretData, secretObj.data = some secretData ∧
      (secretData.lookup "tls.crt" = none ∨ secretData.lookup "tls.key" = none)) →
      LacksCertificate cluster listener :=
    .noTlsKeys tlsConfig ref refs secretObj hTls hr hs
  split at h
  · rename_i hd
    exact .inl ⟨hl (.inl hd), (ok.inj h).symm⟩
  rename_i secretData hd
  rcases hCrt : secretData.lookup "tls.crt" with _ | tlsCrt
  · simp only [hCrt] at h
    exact .inl ⟨hl (.inr ⟨secretData, hd, .inl hCrt⟩), (ok.inj h).symm⟩
  rcases hKey : secretData.lookup "tls.key" with _ | tlsKey
  · simp only [hCrt, hKey] at h
    exact .inl ⟨hl (.inr ⟨secretData, hd, .inr hKey⟩), (ok.inj h).symm⟩
  simp only [hCrt, hKey] at h
  obtain ⟨tls, htc, rfl⟩ := exists_of_map_eq_ok h
  exact .inr ⟨tls, tlsCrt, tlsKey, ⟨tlsConfig, refs, ref, secretObj, secretData, hTls, hr,
    hs, hd, hCrt, hKey⟩, retrieveTlsConfig_eq_ok htc, rfl⟩

theorem retrieveListener_eq_ok {sgListener : SgListener}
    (hh : listener.DeclaresHttps) (h : retrieveListener cluster listener = .ok sgListener) :
    httpsProtocol cluster listener = .ok sgListener.protocol := by
  obtain ⟨protocol, hp, rfl⟩ := exists_of_map_eq_ok h
  rw [Listener.DeclaresHttps] at hh
  rw [retrieveProtocol, hh, if_neg (by decide), if_pos rfl] at hp
  exact hp

end Spacegate.Config
