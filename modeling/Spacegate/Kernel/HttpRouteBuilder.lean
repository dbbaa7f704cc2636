import Spacegate.Kernel.HttpRoute

/-!
# Builders of routes, rules and backends

The setters that the shell calls, with the defaults of a new builder.
-/

namespace Spacegate.Kernel

variable {Regex X Out : Type}

/-- `HttpBackendBuilder` with its `HttpBackendKindBuilder`. -/
structure HttpBackendBuilder (Regex X Out : Type) where
  host : Option String
  port : Option UInt16
  schema : Option String
  version : Option Version
  plugins : List (BoxLayer Regex X Out)
  timeout : RequestTimeout
  weight : UInt16

namespace HttpBackendBuilder

def new : HttpBackendBuilder Regex X Out where
  host := none
  port := none
  schema := none
  version := none
  plugins := []
  timeout := .default
  weight := 1

variable (builder : HttpBackendBuilder Regex X Out)

def withPlugin (plugin : BoxLayer Regex X Out) : HttpBackendBuilder Regex X Out :=
  { builder with plugins := builder.plugins ++ [plugin] }

def withHost (host : String) : HttpBackendBuilder Regex X Out :=
  { builder with host := some host }

def withPort (port : UInt16) : HttpBackendBuilder Regex X Out :=
  { builder with port := some port }

def withSchema (schema : String) : HttpBackendBuilder Regex X Out :=
  { builder with schema := some schema }

def withTimeout (timeout : RequestTimeout) : HttpBackendBuilder Regex X Out :=
  { builder with timeout := timeout }

def build : HttpBackend Regex X Out where
  plugins := builder.plugins
  backend := .http builder.host builder.port builder.schema builder.version
  weight := builder.weight
  timeout := builder.timeout

/-- `file().path(path).build()`: the kind is replaced, the rest is kept. -/
def buildFile (path : String) :
    HttpBackend Regex X Out where
  plugins := builder.plugins
  backend := .file path
  weight := builder.weight
  timeout := builder.timeout

end HttpBackendBuilder

/-- `HttpRouteRuleBuilder`: a rule with a chosen policy, or with the default one. -/
def buildHttpRouteRule («match» : Option (List (HttpRouteMatch Regex)))
    (plugins : List (BoxLayer Regex X Out)) (timeout : RequestTimeout)
    (backends : List (HttpBackend Regex X Out)) (balancePolicy : Option BalancePolicyEnum) :
    HttpRouteRule Regex X Out where
  «match» := «match»
  plugins := plugins
  timeout := timeout
  backends := backends
  balancePolicy := balancePolicy.getD .ipHash

/-- `HttpRouteBuilder::build`: a `*` among the host names stands for all of them,
the name is never set and the priority defaults to one. -/
def buildHttpRoute (hostnames : List String) (rules : List (HttpRouteRule Regex X Out))
    (priority : Option Int16) : HttpRoute Regex X Out where
  name := ""
  hostnames := if hostnames.any (· == "*") then ["*"] else hostnames
  plugins := []
  rules := rules
  priority := priority.getD 1

end Spacegate.Kernel
