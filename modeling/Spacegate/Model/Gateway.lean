import Spacegate.Model.Route

/-!
# Gateway configurations

Listeners, gateways and the items that a configuration source delivers.
-/

namespace Spacegate.Model

open Kernel (IpAddr)

inductive SgTlsMode where
  | terminate
  | passthrough
  deriving DecidableEq, Repr

structure SgTlsConfig where
  mode : SgTlsMode
  key : String
  cert : String
  http2 : Option Bool
  deriving DecidableEq, Repr

inductive SgProtocolConfig where
  | http
  | https (tls : SgTlsConfig)
  deriving DecidableEq, Repr

structure SgListener where
  name : String
  ip : Option IpAddr
  port : UInt16
  protocol : SgProtocolConfig
  hostname : Option String
  deriving DecidableEq

/-- `SgParameters`, of which the gateway itself reads one. -/
structure SgParameters where
  enableXRequestId : Option Bool

structure SgGateway where
  name : String
  parameters : SgParameters
  listeners : List SgListener
  plugins : List PluginBinding

structure ConfigItem where
  gateway : SgGateway
  routes : RouteMap

end Spacegate.Model
