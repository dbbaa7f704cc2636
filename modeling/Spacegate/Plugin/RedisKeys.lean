import Spacegate.Kernel.MatchRequest

/-!
# The keys of the Redis plugins

The `redis-count` and `redis-limit` plugins keep the counters and limits of a client under a
key that is put together from the matched method and path and the value of a header, and
under that key with endings of their own.  The parts are joined with colons, which paths and
header values may contain themselves, so a client can choose a header value that leads to the
keys of another.
-/

namespace Spacegate.Plugin.RedisKeys

open List

open Foundation.Text (splitOnceList_eq_some_iff)
open Kernel (HttpRouteMatch HttpPathMatchRewrite)

variable {Regex : Type}

/-- What the keys of a request are made of.  A method is a token, which has no colon. -/
structure Request (Regex : Type) where
  method : String
  method_token : ':' ∉ method.toList
  matched : HttpRouteMatch Regex
  /-- The value of the header that identifies the client, if it is there and a text. -/
  header : Option String

/-- The method that was matched, if there is a condition on it. -/
def Request.matchedMethod (req : Request Regex) : Option String :=
  if req.matched.method.isNone then none else some req.method

variable (asStr : Regex → String)

def pathText : HttpPathMatchRewrite Regex → String
  | .exact path _ => path
  | .pathPrefix path _ => path
  | .regExp regex _ => asStr regex

def Request.methodPart (req : Request Regex) : String :=
  req.matchedMethod.getD "*"

def Request.pathPart (req : Request Regex) : String :=
  (req.matched.path.map (pathText asStr)).getD "*"

/-- `redis_format_key`, with `Regex::as_str`. -/
def redisFormatKey (req : Request Regex) : Option String :=
  req.header.map fun header => req.methodPart ++ ":" ++ req.pathPart asStr ++ ":" ++ header

inductive CounterPlugin where
  | redisCount
  | redisLimit

/-- The endings of the derived keys: of `redis_call`, and of `check.lua`. -/
def CounterPlugin.endings : CounterPlugin → List String
  | .redisCount => [":cumulative-count"]
  | .redisLimit => [":freq", ":freq_ts"]

/-- The keys an instance uses for a request.  Without the header it uses none. -/
def keys (plugin : CounterPlugin) (instanceKeys : String) (req : Request Regex) : List String :=
  match redisFormatKey asStr req with
  | none => []
  | some key => ("" :: plugin.endings).map (instanceKeys ++ ":" ++ key ++ ·)

/-- The requests have the same matched method and path and the same header value. -/
def SameIdentity (a b : Request Regex) : Prop :=
  a.matchedMethod = b.matchedMethod ∧ a.matched.path = b.matched.path ∧ a.header = b.header

/-- The path and the header value of the one, joined with a colon, are those of the other with
an ending: the paths are the same, or a colon in the longer one is taken for the one between
path and header. -/
def Extends (path header path' header' ending : List Char) : Prop :=
  path = path' ∧ header = header' ++ ending ∨
    (∃ rest, path = path' ++ ':' :: rest ∧ header' ++ ending = rest ++ ':' :: header) ∨
    ∃ rest, path' = path ++ ':' :: rest ∧ header = rest ++ ':' :: (header' ++ ending)

variable (plugin : CounterPlugin)

/-- One of the requests can be taken for the other or for one of its derived keys. -/
def Confusable (a b : Request Regex) : Prop :=
  ∃ header header' ending, a.header = some header ∧ b.header = some header' ∧
    ending ∈ "" :: plugin.endings ∧ a.methodPart = b.methodPart ∧
    (Extends (a.pathPart asStr).toList header.toList (b.pathPart asStr).toList header'.toList
        ending.toList ∨
      Extends (b.pathPart asStr).toList header'.toList (a.pathPart asStr).toList header.toList
        ending.toList)

theorem append_colon_inj {xs ys xs' ys' : List Char} (h : ':' ∉ xs) (h' : ':' ∉ xs') :
    xs ++ ':' :: ys = xs' ++ ':' :: ys' ↔ xs = xs' ∧ ys = ys' := by
  refine ⟨fun hEq => ?_, fun ⟨hXs, hYs⟩ => by rw [hXs, hYs]⟩
  have hCut := splitOnceList_eq_some_iff.mpr ⟨hEq, h'⟩
  rw [splitOnceList_eq_some_iff.mpr ⟨rfl, h⟩] at hCut
  exact Prod.mk.inj (Option.some.inj hCut)

theorem extends_iff {path header path' header' ending : List Char} :
    path ++ ':' :: header = path' ++ ':' :: (header' ++ ending) ↔
      Extends path header path' header' ending := by
  rw [append_eq_append_iff]
  constructor
  · rintro (⟨rest, rfl, hr⟩ | ⟨rest, rfl, hr⟩)
    · cases rest with
      | nil => exact .inl ⟨(append_nil _).symm, (cons.inj hr).2⟩
      | cons c rest =>
        obtain ⟨rfl, hh⟩ := cons.inj hr
        exact .inr (.inr ⟨rest, rfl, hh⟩)
    · cases rest with
      | nil => exact .inl ⟨append_nil _, (cons.inj hr).2.symm⟩
      | cons c rest =>
        obtain ⟨rfl, hh⟩ := cons.inj hr
        exact .inr (.inl ⟨rest, rfl, hh⟩)
  · rintro (⟨rfl, rfl⟩ | ⟨rest, rfl, hh⟩ | ⟨rest, rfl, rfl⟩)
    · exact .inl ⟨[], (append_nil _).symm, rfl⟩
    · exact .inr ⟨':' :: rest, rfl, by rw [hh]; rfl⟩
    · exact .inl ⟨':' :: rest, rfl, rfl⟩

theorem Request.colon_notMem_methodPart (req : Request Regex) : ':' ∉ req.methodPart.toList := by
  unfold Request.methodPart Request.matchedMethod
  split_ifs
  · decide
  · exact req.method_token

theorem key_eq_iff {a b : Request Regex} {path header path' header' ending : String} :
    a.methodPart ++ ":" ++ path ++ ":" ++ header =
        b.methodPart ++ ":" ++ path' ++ ":" ++ header' ++ ending ↔
      a.methodPart = b.methodPart ∧
        Extends path.toList header.toList path'.toList header'.toList ending.toList := by
  rw [← String.toList_inj]
  simp only [String.toList_append, append_assoc]
  show a.methodPart.toList ++ ':' :: (path.toList ++ ':' :: header.toList) =
    b.methodPart.toList ++ ':' :: (path'.toList ++ ':' :: (header'.toList ++ ending.toList)) ↔ _
  rw [append_colon_inj a.colon_notMem_methodPart b.colon_notMem_methodPart, String.toList_inj,
    extends_iff]

/-- A key with one ending is another one with another ending only if one of the two is the
other with an ending. -/
theorem exists_ending_iff {plugin : CounterPlugin} {key key' : String} :
    (∃ ending ∈ "" :: plugin.endings, ∃ ending' ∈ "" :: plugin.endings,
        key ++ ending = key' ++ ending') ↔
      ∃ ending ∈ "" :: plugin.endings, key = key' ++ ending ∨ key' = key ++ ending := by
  constructor
  · rintro ⟨ending, hMem, ending', hm', hEq⟩
    rcases mem_cons.mp hMem with rfl | hd
    · exact ⟨ending', hm', .inl (by rwa [String.append_empty] at hEq)⟩
    rcases mem_cons.mp hm' with rfl | hd'
    · exact ⟨ending, hMem, .inr (by rw [hEq, String.append_empty])⟩
    -- the endings of derived keys differ in their last character
    have hl := congrArg getLast? (String.toList_inj.mpr hEq)
    have hs : ending = ending' := by
      cases plugin <;> simp only [CounterPlugin.endings, mem_cons, not_mem_nil, or_false] at hd hd'
      · rw [hd, hd']
      · rcases hd with rfl | rfl <;> rcases hd' with rfl | rfl <;> simp at hl ⊢
    subst hs
    refine ⟨"", mem_cons_self, .inl ?_⟩
    rw [String.append_empty, ← String.toList_inj]
    rw [← String.toList_inj, String.toList_append, String.toList_append] at hEq
    exact append_cancel_right hEq
  · rintro ⟨ending, hMem, hEq | hEq⟩
    · exact ⟨"", mem_cons_self, ending, hMem, by rw [String.append_empty, hEq]⟩
    · exact ⟨ending, hMem, "", mem_cons_self, by rw [String.append_empty, hEq]⟩

variable (instanceKeys : String)

/-- The keys of two requests have nothing in common exactly if neither can be taken for the other
or for one of its derived keys. -/
theorem keys_disjoint_iff (a b : Request Regex) :
    (∀ key ∈ keys asStr plugin instanceKeys a, key ∉ keys asStr plugin instanceKeys b) ↔
      ¬ Confusable asStr plugin a b := by
  have hc : (∃ key ∈ keys asStr plugin instanceKeys a, key ∈ keys asStr plugin instanceKeys b) ↔
      Confusable asStr plugin a b := by
    cases ha : a.header with
    | none => simp [keys, redisFormatKey, ha, Confusable]
    | some header =>
      cases hb : b.header with
      | none => simp [keys, redisFormatKey, ha, hb, Confusable]
      | some header' =>
        have hCancel : ∀ key key' ending ending' : String,
            instanceKeys ++ ":" ++ key' ++ ending' = instanceKeys ++ ":" ++ key ++ ending ↔
              key ++ ending = key' ++ ending' := by
          intro key key' ending ending'
          simp [← String.toList_inj, eq_comm]
        simp only [keys, redisFormatKey, ha, hb, Option.map_some, mem_map,
          exists_exists_and_eq_and, hCancel, exists_ending_iff, key_eq_iff]
        constructor
        · rintro ⟨ending, hMem, he⟩
          refine ⟨header, header', ending, ha, hb, hMem, ?_⟩
          rw [@eq_comm _ b.methodPart, ← and_or_left] at he
          exact he
        · rintro ⟨_, _, ending, hh, hh', hMem, hm, he⟩
          cases ha.symm.trans hh
          cases hb.symm.trans hh'
          exact ⟨ending, hMem, he.imp (⟨hm, ·⟩) (⟨hm.symm, ·⟩)⟩
  rw [← hc]
  push Not
  exact Iff.rfl

/-- Requests with different identities use different keys exactly if they cannot be confused. -/
theorem separate_iff_not_confusable (a b : Request Regex) :
    (¬ SameIdentity a b →
        ∀ key ∈ keys asStr plugin instanceKeys a, key ∉ keys asStr plugin instanceKeys b) ↔
      (¬ SameIdentity a b → ¬ Confusable asStr plugin a b) :=
  imp_congr_right fun _ => keys_disjoint_iff asStr plugin instanceKeys a b

/-- A client with this header value. -/
def client (header : String) : Request String where
  method := "GET"
  method_token := by decide
  matched :=
    { path := some (.pathPrefix "/api" none), header := none, query := none, method := none }
  header := some header

variable {plugin}

/-- The limit of the client `alice:freq` is the counter of the client `alice`. -/
theorem clients_share_key :
    ¬ SameIdentity (client "alice") (client "alice:freq") ∧
      "sg:plugin:redis-limit:*:/api:alice:freq" ∈
        keys id .redisLimit "sg:plugin:redis-limit" (client "alice") ∧
      "sg:plugin:redis-limit:*:/api:alice:freq" ∈
        keys id .redisLimit "sg:plugin:redis-limit" (client "alice:freq") :=
  ⟨fun h => absurd h.2.2 (by decide), by decide, by decide⟩

end Spacegate.Plugin.RedisKeys
