import Mathlib.Data.List.Infix
import Mathlib.Logic.Relation
import Spacegate.Kernel.Http

/-!
# Which service a connection is handed to

A listener peeks once into an accepted connection and hands it to the first
service that recognises the peeked bytes.  The peek returns as soon as anything
has arrived, and the rest of its zeroed buffer stays zero.

A connection is a small state machine: the client's bytes arrive in segments, and
at some moment after the first of them the listener peeks.  The services see a
non-empty start of the stream, any of them for a suitable segmentation, so the
choice is a function of the stream exactly when all these starts are judged alike
(`Decided`).  For the HTTP and HTTPS services, which need several bytes to
recognise anything, this means that no service recognises the stream at all.
-/

namespace Spacegate.Kernel

open List

/-- `TcpService`, without the handler. -/
structure TcpService where
  protocolName : String
  sniffPeekSize : Nat
  sniff : List UInt8 → Bool

/-- The starts by which `Http` recognises a connection. -/
def httpStarts : List String :=
  ["GET", "HEAD", "POST", "PUT", "DELETE", "CONNECT", "OPTIONS", "TRACE", "PATCH", "PRI * HTTP/2.0"]

/-- `Http` as a TCP service. -/
def httpService : TcpService where
  protocolName := "http"
  sniffPeekSize := 14
  sniff := fun peeked => httpStarts.any fun start => (strBytes start).isPrefixOf peeked

/-- `Https` as a TCP service. -/
def httpsService : TcpService where
  protocolName := "https"
  sniffPeekSize := 5
  sniff := fun peeked => [0x16, 0x03].isPrefixOf peeked

variable (services : List TcpService)

/-- The size of the peek buffer. -/
def peekSize : Nat :=
  services.foldl (fun acc service => max acc service.sniffPeekSize) 0

/-- The buffer after a peek: what has arrived, then zeros. -/
def peekBuf (received : List UInt8) : List UInt8 :=
  received.take (peekSize services) ++ List.replicate (peekSize services - received.length) 0

/-- The position of the first service that recognises what has arrived. -/
def chosenService (received : List UInt8) : Option Nat :=
  services.findIdx? fun service => service.sniff (peekBuf services received)

/-! ## The connection as a state machine -/

/-- A connection: the segments that have not arrived, the bytes that have, and
the listener's choice once it has peeked. -/
structure Connection where
  inFlight : List (List UInt8)
  received : List UInt8
  choice : Option (Option Nat)

def Connection.accepted (segments : List (List UInt8)) : Connection where
  inFlight := segments
  received := []
  choice := none

inductive Connection.Step (services : List TcpService) : Connection → Connection → Prop
  | arrive (segment : List UInt8) (inFlight : List (List UInt8)) (received : List UInt8)
      (choice : Option (Option Nat)) :
      Step services ⟨segment :: inFlight, received, choice⟩
        ⟨inFlight, received ++ segment, choice⟩
  -- A peek waits for the first byte, or for the end of the stream.
  | peek (inFlight : List (List UInt8)) (received : List UInt8)
      (h : received ≠ [] ∨ inFlight = []) :
      Step services ⟨inFlight, received, none⟩
        ⟨inFlight, received, some (chosenService services received)⟩

abbrev Connection.Reaches : Connection → Connection → Prop :=
  Relation.ReflTransGen (Connection.Step services)

variable (stream : List UInt8)

/-- Any two ways in which the stream arrives lead to the same choice. -/
def SegmentationIndependent : Prop :=
  ∀ segments segments' conn conn' choice choice',
    segments.flatten = stream → segments'.flatten = stream →
    Connection.Reaches services (.accepted segments) conn →
    Connection.Reaches services (.accepted segments') conn' →
    conn.choice = some choice → conn'.choice = some choice' → choice = choice'

/-! ## What the listener can see -/

/-- The starts of a stream that a peek can find. -/
def Visible (stream start : List UInt8) : Prop :=
  start <+: stream ∧ (start ≠ [] ∨ stream = [])

/-- Either no service accepts any visible start, or one service accepts all of
them and no service before it accepts any. -/
def Decided : Prop :=
  (∀ service ∈ services, ∀ start, Visible stream start →
    service.sniff (peekBuf services start) = false) ∨
  ∃ before service after, services = before ++ service :: after ∧
    ∀ start, Visible stream start → service.sniff (peekBuf services start) = true ∧
      ∀ earlier ∈ before, earlier.sniff (peekBuf services start) = false

theorem visible_self : Visible stream stream := by
  refine ⟨prefix_rfl, ?_⟩
  by_cases h : stream = []
  · exact Or.inr h
  · exact Or.inl h

/-- What every state of a connection satisfies: nothing is lost or reordered, and
a choice was made on a visible start. -/
structure ConnectionInv (services : List TcpService) (stream : List UInt8)
    (conn : Connection) : Prop where
  bytes : conn.received ++ conn.inFlight.flatten = stream
  chosen : ∀ choice, conn.choice = some choice →
    ∃ start, Visible stream start ∧ choice = chosenService services start

theorem connectionInv_accepted (services : List TcpService) (segments : List (List UInt8)) :
    ConnectionInv services segments.flatten (.accepted segments) where
  bytes := rfl
  chosen := by simp [Connection.accepted]

variable {services : List TcpService}

theorem connectionInv_step {stream : List UInt8} {conn conn' : Connection}
    (hInv : ConnectionInv services stream conn) (hs : Connection.Step services conn conn') :
    ConnectionInv services stream conn' := by
  cases hs with
  | arrive segment inFlight received choice =>
    refine ⟨?_, hInv.chosen⟩
    have hb := hInv.bytes
    simp only [flatten_cons, ← append_assoc] at hb
    exact hb
  | peek inFlight received h =>
    refine ⟨hInv.bytes, ?_⟩
    intro choice hc
    refine ⟨received, ⟨⟨inFlight.flatten, hInv.bytes⟩, ?_⟩, (Option.some.inj hc).symm⟩
    rcases h with hr | hn
    · exact Or.inl hr
    · by_cases hr : received = []
      · right
        have hb := hInv.bytes
        simp only [hr, hn, flatten_nil, append_nil] at hb
        exact hb.symm
      · exact Or.inl hr

theorem connectionInv_reaches {segments : List (List UInt8)} {conn : Connection}
    (hRun : Connection.Reaches services (.accepted segments) conn) :
    ConnectionInv services segments.flatten conn := by
  induction hRun with
  | refl => exact connectionInv_accepted services segments
  | tail _ hs ih => exact connectionInv_step ih hs

variable (services : List TcpService)

theorem exists_run_of_visible {stream start : List UInt8}
    (h : Visible stream start) : ∃ segments conn, segments.flatten = stream ∧
      Connection.Reaches services (.accepted segments) conn ∧
      conn.choice = some (chosenService services start) := by
  obtain ⟨⟨rest, hr⟩, hStart⟩ := h
  by_cases he : start = []
  · have hs : stream = [] := hStart.resolve_left (not_not_intro he)
    refine ⟨[], ⟨[], [], some (chosenService services [])⟩, hs.symm, ?_, by rw [he]⟩
    exact Relation.ReflTransGen.single (.peek [] [] (Or.inr rfl))
  · refine ⟨[start, rest], ⟨[rest], start, some (chosenService services start)⟩, by simpa using hr,
      ?_, rfl⟩
    have ha : Connection.Step services (.accepted [start, rest]) ⟨[rest], start, none⟩ :=
      .arrive start [rest] [] none
    exact (Relation.ReflTransGen.single ha).tail (.peek [rest] start (Or.inl he))

/-! ## The exact condition -/

variable (stream : List UInt8)

theorem segmentationIndependent_iff_agree :
    SegmentationIndependent services stream ↔
      ∀ start, Visible stream start →
        chosenService services start = chosenService services stream := by
  constructor
  · intro h start hs
    obtain ⟨segments, conn, hf, hRun, hc⟩ := exists_run_of_visible services hs
    obtain ⟨segments', conn', hf', hr', hc'⟩ := exists_run_of_visible services (visible_self stream)
    exact h segments segments' conn conn' _ _ hf hf' hRun hr' hc hc'
  · rintro h segments segments' conn conn' choice choice' rfl hf' hRun hr' hc hc'
    obtain ⟨start, hs, rfl⟩ := (connectionInv_reaches hRun).chosen choice hc
    have hi' := connectionInv_reaches hr'
    rw [hf'] at hi'
    obtain ⟨start', hs', rfl⟩ := hi'.chosen choice' hc'
    rw [h start hs, h start' hs']

theorem agree_iff_decided :
    (∀ start, Visible stream start →
      chosenService services start = chosenService services stream) ↔ Decided services stream := by
  constructor
  · intro h
    cases hc : chosenService services stream with
    | none =>
      left
      intro service hService start hs
      have hn := h start hs
      rw [hc, chosenService, findIdx?_eq_none_iff] at hn
      exact hn service hService
    | some i =>
      right
      have hAll : ∀ start, Visible stream start → chosenService services start = some i := by
        intro start hs
        rw [h start hs, hc]
      -- the chosen service splits the list into those before and those after it
      obtain ⟨hLt, _, _⟩ := findIdx?_eq_some_iff_getElem.mp hc
      refine ⟨services.take i, services[i], services.drop (i + 1), ?_, ?_⟩
      · rw [getElem_cons_drop hLt, take_append_drop]
      · intro start hs
        obtain ⟨_, hSniff, he⟩ := findIdx?_eq_some_iff_getElem.mp (hAll start hs)
        refine ⟨hSniff, ?_⟩
        intro earlier hMem
        obtain ⟨j, hj, rfl⟩ := mem_iff_getElem.mp hMem
        rw [length_take] at hj
        simpa using he j (by omega)
  · intro h
    have hc : ∃ choice, ∀ start, Visible stream start → chosenService services start = choice := by
      rcases h with hn | ⟨before, service, after, hServices, hAll⟩
      · refine ⟨none, ?_⟩
        intro start hs
        rw [chosenService, findIdx?_eq_none_iff]
        exact fun service hService => hn service hService start hs
      · refine ⟨some before.length, ?_⟩
        intro start hs
        obtain ⟨hSniff, he⟩ := hAll start hs
        have hb : before.findIdx? (fun service => service.sniff (peekBuf services start)) =
            none := findIdx?_eq_none_iff.mpr he
        rw [chosenService]
        conv_lhs => rw [hServices]
        rw [findIdx?_append, ← hServices, hb]
        simp [findIdx?_cons, hSniff]
    obtain ⟨choice, hChoice⟩ := hc
    intro start hs
    rw [hChoice start hs, hChoice stream (visible_self stream)]

/-- The service that handles a connection is a function of the stream exactly
when the services judge all its visible starts alike. -/
theorem segmentationIndependent_iff_decided :
    SegmentationIndependent services stream ↔ Decided services stream := by
  rw [segmentationIndependent_iff_agree, agree_iff_decided]

/-! ## The HTTP services -/

/-- The service looks for one of several starts, each of two bytes or more and
without zeros. -/
def RecognisesByStart (service : TcpService) : Prop :=
  ∃ starts : List (List UInt8), (∀ start ∈ starts, 0 ∉ start ∧ 2 ≤ start.length) ∧
    ∀ buf, service.sniff buf = starts.any fun start => start.isPrefixOf buf

theorem httpService_recognisesByStart : RecognisesByStart httpService := by
  refine ⟨httpStarts.map strBytes, by decide, ?_⟩
  intro buf
  rfl

theorem httpsService_recognisesByStart : RecognisesByStart httpsService := by
  refine ⟨[[0x16, 0x03]], by decide, ?_⟩
  simp [httpsService]

variable {services}

/-- The padding cannot complete a start without zeros. -/
theorem isPrefixOf_peekBuf_iff {start received : List UInt8} (hz : 0 ∉ start) :
    start.isPrefixOf (peekBuf services received) = true ↔
      start <+: received.take (peekSize services) := by
  rw [peekBuf, isPrefixOf_iff_prefix]
  constructor
  · intro h
    rcases prefix_or_prefix_of_prefix h (prefix_append _ _) with ha | ⟨rest, rfl⟩
    · exact ha
    · rw [prefix_append_right_inj] at h
      cases rest with
      | nil => simp
      | cons b rest =>
        have hb : b = 0 := eq_of_mem_replicate (h.subset mem_cons_self)
        exact absurd (by simp [hb]) hz
  · intro h
    exact h.trans (prefix_append _ _)

theorem recognises_iff {service : TcpService} {starts : List (List UInt8)}
    (hs : ∀ start ∈ starts, 0 ∉ start ∧ 2 ≤ start.length)
    (hSniff : ∀ buf, service.sniff buf = starts.any fun start => start.isPrefixOf buf)
    (received : List UInt8) : service.sniff (peekBuf services received) = true ↔
      ∃ start ∈ starts, start <+: received.take (peekSize services) := by
  rw [hSniff, any_eq_true]
  constructor
  · rintro ⟨start, hMem, h⟩
    exact ⟨start, hMem, (isPrefixOf_peekBuf_iff (hs start hMem).1).mp h⟩
  · rintro ⟨start, hMem, h⟩
    exact ⟨start, hMem, (isPrefixOf_peekBuf_iff (hs start hMem).1).mpr h⟩

/-- Among services that recognise by a start, the choice is independent of the
segmentation exactly for the streams that none of them recognises: one byte alone
is never enough. -/
theorem segmentationIndependent_iff_unrecognised
    (hServices : ∀ service ∈ services, RecognisesByStart service) (stream : List UInt8) :
    SegmentationIndependent services stream ↔
      ∀ service ∈ services, service.sniff (peekBuf services stream) = false := by
  rw [segmentationIndependent_iff_agree, agree_iff_decided]
  constructor
  · rintro (hn | ⟨before, service, after, hSplit, hAll⟩)
    · exact fun service hService => hn service hService stream (visible_self stream)
    · -- a service that accepts all starts would accept one of at most one byte
      exfalso
      have hMem : service ∈ services := by
        rw [hSplit]
        simp
      obtain ⟨starts, hs, hSniff⟩ := hServices service hMem
      obtain ⟨first, hf, hShort⟩ : ∃ first, Visible stream first ∧ first.length ≤ 1 := by
        cases stream with
        | nil => exact ⟨[], visible_self [], by simp⟩
        | cons b rest => exact ⟨[b], ⟨⟨rest, rfl⟩, Or.inl (by simp)⟩, by simp⟩
      obtain ⟨start, hStart, hp⟩ := (recognises_iff hs hSniff first).mp (hAll first hf).1
      have hl := hp.length_le
      rw [length_take] at hl
      have hLong := (hs start hStart).2
      omega
  · intro hn
    left
    intro service hMem start hv
    obtain ⟨starts, hs, hSniff⟩ := hServices service hMem
    by_contra ha
    rw [Bool.not_eq_false] at ha
    obtain ⟨found, hFound, hp⟩ := (recognises_iff hs hSniff start).mp ha
    have hStream : service.sniff (peekBuf services stream) = true := by
      rw [recognises_iff hs hSniff]
      exact ⟨found, hFound, hp.trans (hv.1.take _)⟩
    rw [hn service hMem] at hStream
    exact absurd hStream (by simp)

/-- A `GET` request whose first byte arrives alone is not recognised. -/
theorem get_request_depends_on_segmentation :
    ¬ SegmentationIndependent [httpService] (strBytes "GET / HTTP/1.1") := by
  intro h
  have ha := (segmentationIndependent_iff_agree _ _).mp h (strBytes "G")
    ⟨⟨strBytes "ET / HTTP/1.1", by decide⟩, Or.inl (by decide)⟩
  exact absurd ha (by decide)

end Spacegate.Kernel
