import Spacegate.Foundation.IpAddr
import Spacegate.Foundation.LabelPattern
import Spacegate.Foundation.OrderedMap
import Spacegate.Foundation.Text
import Spacegate.Foundation.WriteHistory

/-!
# Matching host names

`HostnameMatcherNode` is a trie over the labels of a host name read from the top
level domain: literal labels lead to `children`, the label `*` leads to
`elseNode`, and `data` belongs to the pattern that ends at the node.
`HostnameTree` puts two address maps and a fallback value beside one such trie.

Writing through the reference that `get_mut` returns is modelled by passing the
write to the search: `getMut f host` is the tree after `f` was applied to the
value that the search found, and `none` when it found nothing.
-/

namespace Spacegate.Kernel

open Foundation OrderedMap
open Foundation.IpAddr (Ipv4Addr Ipv6Addr parseIpv4 parseIpv6)
open Foundation.LabelPattern (Pattern Matches AtLeastAsSpecific bestMatch)
open Foundation.Text

/-- A trie node; `elseNode` is the branch of the label `*`. -/
structure HostnameMatcherNode (T : Type) where
  data : Option T
  children : List (String × HostnameMatcherNode T)
  elseNode : Option (HostnameMatcherNode T)

namespace HostnameMatcherNode

variable {T : Type}

/-- The empty node. -/
def new : HostnameMatcherNode T where
  data := none
  children := []
  elseNode := none

/-- Walk down the labels, creating the missing nodes, and write the data. -/
def appendByIter (node : HostnameMatcherNode T) : List String → T → HostnameMatcherNode T
  | [], data => { node with data := some data }
  | segment :: host, data =>
    if segment = "*" then
      { node with elseNode := some ((node.elseNode.getD new).appendByIter host data) }
    else
      { node with
        children := upsert (toAsciiLowercase segment)
          (fun child => (child.getD new).appendByIter host data) node.children }

/-- The labels of a host, top level domain first. -/
def labels (host : String) : List String :=
  (split '.' host).reverse

/-- Register data under a host pattern. -/
def set (node : HostnameMatcherNode T) (host : String) (data : T) : HostnameMatcherNode T :=
  node.appendByIter (labels host) data

/-- The search: the literal child first, then the `*` branch, then the data of
the `*` branch itself for a pattern whose leftmost label is `*`. -/
def getByIter (node : HostnameMatcherNode T) : List String → Option T
  | [] => node.data
  | segment :: host =>
    match (get node.children segment).bind (·.getByIter host) with
    | some data => some data
    | none =>
      match node.elseNode with
      | none => none
      | some elseNode => (elseNode.getByIter host).or elseNode.data

/-- Apply a write to the value that `getByIter` finds. -/
def getMutByIter (f : T → T) (node : HostnameMatcherNode T) :
    List String → Option (HostnameMatcherNode T)
  | [] => node.data.map fun data => { node with data := some (f data) }
  | segment :: host =>
    match (get node.children segment).bind (·.getMutByIter f host) with
    | some child =>
      some { node with
        children := upsert segment (fun _ => child) node.children }
    | none =>
      match node.elseNode with
      | none => none
      | some elseNode =>
        match elseNode.getMutByIter f host with
        | some elseNode => some { node with elseNode := some elseNode }
        | none =>
          elseNode.data.map fun data =>
            { node with elseNode := some { elseNode with data := some (f data) } }

/-- Look a host up; letter case is ignored. -/
def get (node : HostnameMatcherNode T) (host : String) : Option T :=
  node.getByIter (labels (toAsciiLowercase host))

/-- Apply a write to the value that `get` finds. -/
def getMut (f : T → T) (node : HostnameMatcherNode T) (host : String) :
    Option (HostnameMatcherNode T) :=
  node.getMutByIter f (labels (toAsciiLowercase host))

/-- The slot that the first `next` of `iter` yields: the node's own data, else
whatever the first child yields, else whatever the `*` branch yields. -/
def firstSlot : HostnameMatcherNode T → Option (Pattern String)
  | ⟨some _, _, _⟩ => some []
  | ⟨none, (segment, child) :: _, _⟩ => child.firstSlot.map (some segment :: ·)
  | ⟨none, [], some elseNode⟩ => elseNode.firstSlot.map (none :: ·)
  | ⟨none, [], none⟩ => none

/-- The answers of successive `next` calls.  Each child is asked once, for its
first slot only, and an answer `none` does not end the sequence. -/
def nextSlots : HostnameMatcherNode T → List (Option (Pattern String))
  | ⟨data, children, elseNode⟩ =>
    (data.map fun _ => some []).toList ++
      children.map (fun child => child.2.firstSlot.map (some child.1 :: ·)) ++
      match elseNode with
      | none => []
      | some elseNode => elseNode.nextSlots.map (Option.map (none :: ·))

/-- Apply a write to the data slot at the end of a path of labels. -/
def modifySlot (f : T → T) (node : HostnameMatcherNode T) :
    Pattern String → HostnameMatcherNode T
  | [] => { node with data := node.data.map f }
  | some segment :: slot =>
    match OrderedMap.get node.children segment with
    | none => node
    | some child =>
      { node with
        children := OrderedMap.upsert segment (fun _ => child.modifySlot f slot) node.children }
  | none :: slot => { node with elseNode := node.elseNode.map (·.modifySlot f slot) }

end HostnameMatcherNode

/-- Address maps, the trie of names and the value of the pattern `*`. -/
structure HostnameTree (T : Type) where
  ipv4 : OrderedMap Ipv4Addr T
  ipv6 : OrderedMap Ipv6Addr T
  host : HostnameMatcherNode T
  fallback : Option T

/-- One place of a tree that holds a value. -/
inductive HostnameSlot where
  | ipv4 (address : Ipv4Addr)
  | ipv6 (address : Ipv6Addr)
  | host (path : Pattern String)
  | fallback

/-- What the front of `get` makes of a host text. -/
inductive HostKey where
  /-- A text that starts with `[` and is no bracketed IPv6 address. -/
  | malformed
  | ipv6 (address : Ipv6Addr)
  | ipv4 (address : Ipv4Addr)
  | name (host : String)
  deriving DecidableEq

/-- Cut the port off and classify the host, as `get` and `get_mut` both do.  A
bracketed host runs to the first `]`; any other host ends before its last `:`. -/
def hostKey (host : String) : HostKey :=
  if startsWith '[' host then
    match splitOnce ']' (String.ofList host.toList.tail) with
    | none => .malformed
    | some (inner, _) =>
      match parseIpv6 inner with
      | none => .malformed
      | some ipv6 => .ipv6 ipv6
  else
    let host := ((rsplitOnce ':' host).map Prod.fst).getD host
    match parseIpv4 host with
    | some ipv4 => .ipv4 ipv4
    | none => .name host

namespace HostnameTree

variable {T : Type}

/-- The empty tree. -/
def new : HostnameTree T where
  ipv4 := []
  ipv6 := []
  host := .new
  fallback := none

/-- The value of a host.  A malformed bracketed host returns early, before the
fallback is consulted. -/
def get (tree : HostnameTree T) (host : String) : Option T :=
  match hostKey host with
  | .malformed => none
  | .ipv6 ipv6 => (OrderedMap.get tree.ipv6 ipv6).or tree.fallback
  | .ipv4 ipv4 => (OrderedMap.get tree.ipv4 ipv4).or tree.fallback
  | .name host => (tree.host.get host).or tree.fallback

/-- Apply a write to an optional value that stands behind a reference. -/
def writeFallback (f : T → T) (tree : HostnameTree T) : Option (HostnameTree T) :=
  tree.fallback.map fun data => { tree with fallback := some (f data) }

/-- Apply a write to the value that `get` finds. -/
def getMut (f : T → T) (tree : HostnameTree T) (host : String) : Option (HostnameTree T) :=
  match hostKey host with
  | .malformed => none
  | .ipv6 ipv6 =>
    match OrderedMap.get tree.ipv6 ipv6 with
    | some data => some { tree with ipv6 := OrderedMap.insert ipv6 (f data) tree.ipv6 }
    | none => tree.writeFallback f
  | .ipv4 ipv4 =>
    match OrderedMap.get tree.ipv4 ipv4 with
    | some data => some { tree with ipv4 := OrderedMap.insert ipv4 (f data) tree.ipv4 }
    | none => tree.writeFallback f
  | .name host =>
    match tree.host.getMut f host with
    | some host => some { tree with host := host }
    | none => tree.writeFallback f

/-- Register data under a host pattern.  A bracketed pattern that is no IPv6
address is dropped. -/
def set (tree : HostnameTree T) (host : String) (data : T) : HostnameTree T :=
  if host = "*" then
    { tree with fallback := some data }
  else if startsWith '[' host then
    -- `strip_prefix('[')`, then `strip_suffix(']')`
    if endsWith ']' (String.ofList host.toList.tail) then
      match parseIpv6 (String.ofList host.toList.tail.dropLast) with
      | some ipv6 => { tree with ipv6 := insert ipv6 data tree.ipv6 }
      | none => tree
    else
      tree
  else
    match parseIpv4 host with
    | some ipv4 => { tree with ipv4 := insert ipv4 data tree.ipv4 }
    | none => { tree with host := tree.host.set host data }

/-- Interleave the trie's `next` answers with the fallback: each time the trie
answers `none` the fallback is asked, once, and the walk ends when both have
nothing. -/
def walkSlots : List (Option (Pattern String)) → Bool → List HostnameSlot
  | some path :: answers, fallback => .host path :: walkSlots answers fallback
  | none :: answers, true => .fallback :: walkSlots answers false
  | none :: _, false => []
  | [], true => [.fallback]
  | [], false => []

/-- The slots that `iter` and `iter_mut` visit, in order. -/
def iterSlots (tree : HostnameTree T) : List HostnameSlot :=
  tree.ipv4.map (fun entry => .ipv4 entry.1) ++ tree.ipv6.map (fun entry => .ipv6 entry.1) ++
    walkSlots tree.host.nextSlots tree.fallback.isSome

/-- Apply a write to one slot. -/
def modifySlot (f : T → T) (tree : HostnameTree T) : HostnameSlot → HostnameTree T
  | .ipv4 address =>
    { tree with ipv4 := tree.ipv4.map fun entry =>
        if entry.1 = address then (entry.1, f entry.2) else entry }
  | .ipv6 address =>
    { tree with ipv6 := tree.ipv6.map fun entry =>
        if entry.1 = address then (entry.1, f entry.2) else entry }
  | .host path => { tree with host := tree.host.modifySlot f path }
  | .fallback => { tree with fallback := tree.fallback.map f }

/-- `iter_mut().for_each(f)`. -/
def iterMutForEach (f : T → T) (tree : HostnameTree T) : HostnameTree T :=
  tree.iterSlots.foldl (modifySlot f) tree

end HostnameTree

end Spacegate.Kernel
