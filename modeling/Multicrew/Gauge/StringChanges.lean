import Multicrew.Gauge.Elements
import Multicrew.Library.Bytes
import Multicrew.Library.Machine

/-!
# Strings that change

`StringElement` keeps its strings in two arrays of `BUFFER_SIZE + 1` characters, whose memory is not
cleared. The host compares the string of the header with what it sent last, of which only the first
`BUFFER_SIZE` characters are kept. A host and a client are joined by a queue that keeps the order.
-/

namespace Multicrew.Gauge

open Multicrew.Core (Mode Str)
open Multicrew.Library

/-- `StringElement::Data` with its arrays. -/
structure StringData where
  stringHeader : Option StringHeader := none
  origCallback : Option UpdateCallback := none
  value : List UInt8
  buffer : List UInt8
  changed : Bool := false

/-- What one update callback yields. -/
structure StringDataUpdate where
  data : StringData
  ret : FLOAT64
  sent : List Str := []
  redrawStatics : Bool := false

/-- Memory for one of the arrays. -/
abbrev CharArray := Vector UInt8 (bufferSize + 1)

namespace StringData

/-- `StringElement::StringElement` with the memory it gets. -/
def new (value buffer : CharArray) : StringData where
  value := (value.toList.set 0 0).set bufferSize 0
  buffer := (buffer.toList.set 0 0).set bufferSize 0

variable (d : StringData)

/-- `StringElement::sendState` -/
def sendState : Mode → List Str
  | .idle => []
  | .host => [cString d.value]
  | .client => []

/-- `StringElement::receive` -/
def receive (mode : Mode) (packet : Str) : StringData :=
  match mode with
  | .idle => d
  | .host => d
  | .client => { d with value := copyString d.value packet bufferSize, changed := true }

/-- `StringElement::callback`; none is a `strcmp` of a null pointer. -/
def callback (mode : Mode) (pelement : StringHeader)
    (orig : StringHeader → FLOAT64 × StringHeader) : Option StringDataUpdate :=
  let (ret, pelement) := orig pelement
  match mode with
  | .idle => some { data := { d with stringHeader := some pelement }, ret := ret }
  | .host =>
    let d := { d with stringHeader := some pelement }
    match pelement.string with
    | none =>
      if d.value.head? ≠ some 0 then
        let d := { d with value := d.value.set 0 0 }
        some { data := d, ret := ret, sent := d.sendState mode }
      else none
    | some string =>
      if cString string ≠ cString d.value then
        let d := { d with value := copyString d.value string bufferSize }
        some { data := d, ret := ret, sent := d.sendState mode }
      else some { data := d, ret := ret }
  | .client =>
    let d := { d with buffer := copyString d.buffer d.value bufferSize }
    -- the header points to the buffer
    let pelement := { pelement with string := some (cString d.buffer) }
    if d.changed then
      some
        { data :=
            { d with
              changed := false
              stringHeader := some { pelement with
                imageFlags := setOffScreen pelement.imageFlags } }
          ret := ret
          redrawStatics := pelement.imageFlags &&& IMAGE_USE_TRANSPARENCY != 0 }
    else some { data := { d with stringHeader := some pelement }, ret := ret }

/-- The strings the arrays hold. -/
def element : StringElement where
  stringHeader := d.stringHeader
  origCallback := d.origCallback
  value := cString d.value
  buffer := cString d.buffer
  changed := d.changed

/-- Both arrays have their size and end with a NUL. -/
def Safe : Prop := Terminated bufferSize d.value ∧ Terminated bufferSize d.buffer

end StringData

/-- An update in terms of the strings. -/
def StringDataUpdate.update (u : StringDataUpdate) : StringUpdate where
  element := u.data.element
  ret := u.ret
  sent := u.sent
  redrawStatics := u.redrawStatics

/-- What of a string the element can hold; a null pointer stands for the empty string. -/
def truncated (string : Option Str) : Str := (cString (string.getD [])).take bufferSize

namespace StringData

variable {d : StringData}

/-- A new element holds empty strings. -/
theorem safe_new (value buffer : CharArray) : (new value buffer).Safe :=
  ⟨terminated_set (by simp), terminated_set (by simp)⟩

/-- A new element has an empty value. -/
theorem element_new_value (value buffer : CharArray) : (new value buffer).element.value = [] := by
  have hne : (0 : ℕ) ≠ bufferSize := by decide
  rw [element, new, List.set_comm _ _ hne]
  exact cString_set_zero _

/-- Receiving stays inside the arrays. -/
theorem Safe.receive (hd : d.Safe) (mode : Mode) (packet : Str) : (d.receive mode packet).Safe := by
  cases mode with
  | client => exact ⟨hd.1.copyString packet, hd.2⟩
  | idle => exact hd
  | host => exact hd

/-- The value fits into the buffer that is shown. -/
theorem Safe.cString_shown (hd : d.Safe) :
    cString (copyString d.buffer d.value bufferSize) = cString d.value := by
  rw [hd.2.cString_copyString, List.take_of_length_le hd.1.length_le]

/-- The arrays do what the strings do. -/
theorem update_callback (hd : d.Safe) (mode : Mode) (pelement : StringHeader)
    (orig : StringHeader → FLOAT64 × StringHeader) :
    (d.callback mode pelement orig).map (·.update) = d.element.callback mode pelement orig := by
  cases mode with
  | idle => rfl
  | host =>
    cases hstring : (orig pelement).2.string with
    | none =>
      simp only [callback, StringElement.callback, hstring]
      by_cases hempty : cString d.value = []
      · have hhead := hd.1.cString_eq_nil_iff.mp hempty
        simp [element, hempty, hhead]
      · have hhead := mt hd.1.cString_eq_nil_iff.mpr hempty
        simp [element, hempty, hhead, StringDataUpdate.update, sendState, StringElement.sendState,
          cString_set_zero]
    | some string =>
      have hcopied : cString (copyString d.value string bufferSize) = strncpy string :=
        hd.1.cString_copyString string
      have hread : string.takeWhile (· ≠ 0) = cString string := rfl
      simp only [callback, StringElement.callback, hstring, hread]
      by_cases hsame : cString string = cString d.value
      · simp [element, hsame, StringDataUpdate.update]
      · simp [element, hsame, StringDataUpdate.update, sendState, StringElement.sendState, hcopied]
  | client =>
    have hwhole := hd.cString_shown
    simp only [callback, StringElement.callback]
    cases hchanged : d.changed with
    | true => simp [element, hchanged, StringDataUpdate.update, hwhole]
    | false => simp [element, hchanged, StringDataUpdate.update, hwhole]

/-- A callback stays inside the arrays. -/
theorem Safe.callback (hd : d.Safe) {mode : Mode} {pelement : StringHeader}
    {orig : StringHeader → FLOAT64 × StringHeader} {u : StringDataUpdate}
    (h : d.callback mode pelement orig = some u) : u.data.Safe := by
  cases mode with
  | idle =>
    obtain rfl := Option.some.inj h
    exact hd
  | host =>
    cases hstring : (orig pelement).2.string with
    | none =>
      simp only [StringData.callback, hstring, Option.ite_none_right_eq_some,
        Option.some.injEq] at h
      obtain ⟨-, rfl⟩ := h
      exact ⟨hd.1.set_zero, hd.2⟩
    | some string =>
      simp only [StringData.callback, hstring] at h
      split at h
      · obtain rfl := Option.some.inj h
        exact ⟨hd.1.copyString string, hd.2⟩
      · obtain rfl := Option.some.inj h
        exact hd
  | client =>
    have hcopied := hd.2.copyString d.value
    simp only [StringData.callback] at h
    split at h
    · obtain rfl := Option.some.inj h
      exact ⟨hd.1, hcopied⟩
    · obtain rfl := Option.some.inj h
      exact ⟨hd.1, hcopied⟩

/-- What a host's callback sends and keeps. -/
theorem callback_host (hd : d.Safe) (pelement : StringHeader)
    (orig : StringHeader → FLOAT64 × StringHeader) :
    (d.callback .host pelement orig).map (fun u => (u.sent, cString u.data.value)) =
      match (orig pelement).2.string with
      | none => if cString d.value = [] then none else some ([[]], [])
      | some string =>
        if cString string = cString d.value then some ([], cString d.value)
        else some ([strncpy string], strncpy string) := by
  have hupdate := congrArg (Option.map fun u : StringUpdate => (u.sent, u.element.value))
    (d.update_callback hd .host pelement orig)
  rw [Option.map_map] at hupdate
  refine hupdate.trans ?_
  cases hstring : (orig pelement).2.string with
  | none =>
    simp only [StringElement.callback, hstring]
    by_cases hempty : cString d.value = []
    · simp [element, hempty]
    · simp [element, hempty, StringElement.sendState]
  | some string =>
    have hread : string.takeWhile (· ≠ 0) = cString string := rfl
    simp only [StringElement.callback, hstring, hread]
    by_cases hsame : cString string = cString d.value
    · simp [element, hsame]
    · simp [element, hsame, StringElement.sendState]

/-- A client's callback shows the value. -/
theorem callback_client (hd : d.Safe) (pelement : StringHeader)
    (orig : StringHeader → FLOAT64 × StringHeader) :
    ∃ u, d.callback .client pelement orig = some u ∧ u.data.value = d.value ∧ u.data.Safe ∧
      u.data.stringHeader.bind (·.string) = some (cString d.value) := by
  have hwhole := hd.cString_shown
  cases hcallback : d.callback .client pelement orig with
  | none =>
    simp only [StringData.callback] at hcallback
    split at hcallback <;> cases hcallback
  | some u =>
    refine ⟨u, rfl, ?_, hd.callback hcallback, ?_⟩
    all_goals
      simp only [StringData.callback] at hcallback
      split at hcallback
      all_goals
        obtain rfl := Option.some.inj hcallback
        simp [hwhole]

end StringData

/-- A host and a client, the packets between them, and the strings sent and delivered last. -/
structure StringPair where
  host : StringData
  lastSent : Str := []
  wire : List Str := []
  client : StringData
  delivered : Str := []

/-- What happens to the two elements. -/
inductive StringAction
  | hostCallback (pelement : StringHeader) (orig : StringHeader → FLOAT64 × StringHeader)
  | sendFullState
  | deliver
  | clientCallback (pelement : StringHeader) (orig : StringHeader → FLOAT64 × StringHeader)

namespace StringPair

/-- Two new elements. -/
def start (hostValue hostBuffer clientValue clientBuffer : CharArray) : StringPair where
  host := .new hostValue hostBuffer
  client := .new clientValue clientBuffer

variable (s : StringPair)

/-- The host's element after it sent packets. -/
def send (host : StringData) (sent : List Str) : StringPair :=
  { s with host := host, lastSent := sent.getLast?.getD s.lastSent, wire := s.wire ++ sent }

/-- One call; `none` when it passes a null pointer to `strcmp`, or nothing is there to deliver. -/
def step : StringAction → Option StringPair
  | .hostCallback pelement orig =>
    (s.host.callback .host pelement orig).map fun u => s.send u.data u.sent
  | .sendFullState => some (s.send s.host (s.host.sendState .host))
  | .deliver =>
    match s.wire with
    | [] => none
    | packet :: rest =>
      some { s with wire := rest, client := s.client.receive .client packet, delivered := packet }
  | .clientCallback pelement orig =>
    (s.client.callback .client pelement orig).map fun u => { s with client := u.data }

/-- A host's callback passes no null pointer and sends the string exactly when it is not the one
sent last; a client's callback shows the string delivered last, which is the one sent last when
nothing is on its way. The arrays keep their size and their NUL. -/
def Exact : StringAction → Prop
  | .hostCallback pelement orig =>
    ∃ u, s.host.callback .host pelement orig = some u ∧ u.data.Safe ∧
      u.sent = if truncated (orig pelement).2.string = s.lastSent then []
        else [truncated (orig pelement).2.string]
  | .clientCallback pelement orig =>
    ∃ u, s.client.callback .client pelement orig = some u ∧ u.data.Safe ∧
      u.data.stringHeader.bind (·.string) = some s.delivered ∧
        (s.wire = [] → s.delivered = s.lastSent)
  | .sendFullState | .deliver => True

/-- A null pointer comes only after a string that is not empty, and a string that does not fit only
if its beginning is not what was sent last. -/
def Comparable : StringAction → Prop
  | .hostCallback pelement orig =>
    match (orig pelement).2.string with
    | none => s.lastSent ≠ []
    | some string =>
      (cString string).length ≤ bufferSize ∨ (cString string).take bufferSize ≠ s.lastSent
  | .sendFullState | .deliver | .clientCallback .. => True

instance : ∀ a, Decidable (s.Comparable a)
  | .hostCallback pelement orig =>
    match h : (orig pelement).2.string with
    | none => decidable_of_iff (s.lastSent ≠ []) (by simp only [Comparable, h])
    | some string =>
      decidable_of_iff ((cString string).length ≤ bufferSize ∨
        (cString string).take bufferSize ≠ s.lastSent) (by simp only [Comparable, h])
  | .sendFullState | .deliver | .clientCallback .. => .isTrue trivial

/-- The values are the strings sent and delivered last. -/
structure Linked : Prop where
  host : s.host.Safe
  client : s.client.Safe
  sent : cString s.host.value = s.lastSent
  delivered : cString s.client.value = s.delivered
  last : s.wire.getLast?.getD s.delivered = s.lastSent
  fits : ∀ packet ∈ s.wire, strncpy packet = packet

end StringPair

/-- A host and a client from their construction on. -/
def stringMachine : Machine StringPair StringAction where
  initial s := ∃ hostValue hostBuffer clientValue clientBuffer,
    s = .start hostValue hostBuffer clientValue clientBuffer
  step := StringPair.step

namespace StringPair

variable {s t : StringPair}

/-- New elements hold what was sent and delivered. -/
theorem linked_start (hostValue hostBuffer clientValue clientBuffer : CharArray) :
    (start hostValue hostBuffer clientValue clientBuffer).Linked where
  host := StringData.safe_new hostValue hostBuffer
  client := StringData.safe_new clientValue clientBuffer
  sent := StringData.element_new_value hostValue hostBuffer
  delivered := StringData.element_new_value clientValue clientBuffer
  last := rfl
  fits := fun _ h => absurd h List.not_mem_nil

/-- A host that sends what it holds stays linked. -/
theorem Linked.send (hs : s.Linked) {host : StringData} (hhost : host.Safe) {sent : List Str}
    (hsent : sent = [] ∧ cString host.value = s.lastSent ∨ sent = [cString host.value]) :
    (s.send host sent).Linked := by
  have hfits : strncpy (cString host.value) = cString host.value := by
    have hread : strncpy (cString host.value) = (cString (cString host.value)).take bufferSize :=
      rfl
    rw [hread, cString_eq_self (not_mem_cString _), List.take_of_length_le hhost.1.length_le]
  rcases hsent with ⟨rfl, hvalue⟩ | rfl
  · refine ⟨hhost, hs.client, hvalue, hs.delivered, ?_, ?_⟩
    · simpa [StringPair.send] using hs.last
    · simpa only [StringPair.send, List.append_nil] using hs.fits
  · refine ⟨hhost, hs.client, rfl, hs.delivered, ?_, ?_⟩
    · simp [StringPair.send]
    · intro packet hpacket
      cases List.mem_append.mp hpacket with
      | inl hold => exact hs.fits packet hold
      | inr hnew => rw [List.mem_singleton.mp hnew, hfits]

/-- What the host sends is what it holds then. -/
theorem Linked.hostCallback (hs : s.Linked) {pelement : StringHeader}
    {orig : StringHeader → FLOAT64 × StringHeader} {u : StringDataUpdate}
    (h : s.host.callback .host pelement orig = some u) : (s.send u.data u.sent).Linked := by
  refine hs.send (hs.host.callback h) ?_
  have hsent := StringData.callback_host hs.host pelement orig
  rw [h, Option.map_some] at hsent
  split at hsent
  · split at hsent
    · cases hsent
    · obtain ⟨hpackets, hvalue⟩ := Prod.mk.inj (Option.some.inj hsent)
      exact .inr (by rw [hpackets, hvalue])
  · split at hsent
    · obtain ⟨hpackets, hvalue⟩ := Prod.mk.inj (Option.some.inj hsent)
      exact .inl ⟨hpackets, hvalue.trans hs.sent⟩
    · obtain ⟨hpackets, hvalue⟩ := Prod.mk.inj (Option.some.inj hsent)
      exact .inr (by rw [hpackets, hvalue])

/-- What is delivered is what the client holds then. -/
theorem Linked.deliver (hs : s.Linked) {packet : Str} {rest : List Str}
    (hwire : s.wire = packet :: rest) :
    Linked { s with
      wire := rest, client := s.client.receive .client packet, delivered := packet } := by
  have hfits : strncpy packet = packet := hs.fits packet (hwire ▸ List.mem_cons_self ..)
  have hlast := hs.last
  rw [hwire] at hlast
  refine ⟨hs.host, hs.client.receive .client packet, hs.sent, ?_, ?_, fun p hp =>
    hs.fits p (hwire ▸ List.mem_cons_of_mem _ hp)⟩
  · exact (hs.client.1.cString_copyString packet).trans hfits
  · cases rest with
    | nil => exact hlast
    | cons next rest => exact hlast

/-- Every call keeps the elements linked. -/
theorem Linked.step (hs : s.Linked) {a : StringAction} (h : s.step a = some t) : t.Linked := by
  cases a with
  | hostCallback pelement orig =>
    obtain ⟨u, hu, rfl⟩ := Option.map_eq_some_iff.mp h
    exact hs.hostCallback hu
  | sendFullState =>
    obtain rfl := Option.some.inj h
    exact hs.send hs.host (.inr rfl)
  | deliver =>
    simp only [StringPair.step] at h
    split at h
    · cases h
    · next packet rest hwire =>
      obtain rfl := Option.some.inj h
      exact hs.deliver hwire
  | clientCallback pelement orig =>
    obtain ⟨u, hu, rfl⟩ := Option.map_eq_some_iff.mp h
    obtain ⟨u', hu', hvalue, hsafe, -⟩ := StringData.callback_client hs.client pelement orig
    obtain rfl := Option.some.inj (hu.symm.trans hu')
    exact ⟨hs.host, hsafe, hs.sent, hvalue ▸ hs.delivered, hs.last, hs.fits⟩

/-- A host's callback does what is expected exactly when the string can be compared. -/
theorem Linked.hostCallback_iff (hs : s.Linked) (pelement : StringHeader)
    (orig : StringHeader → FLOAT64 × StringHeader) :
    s.Exact (.hostCallback pelement orig) ↔ s.Comparable (.hostCallback pelement orig) := by
  have hsent := StringData.callback_host hs.host pelement orig
  have hvalue : s.lastSent.length ≤ bufferSize := hs.sent ▸ hs.host.1.length_le
  -- all that matters of the callback is what it sends
  have hexact : s.Exact (.hostCallback pelement orig) ↔
      (s.host.callback .host pelement orig).map (·.sent) =
        some (if truncated (orig pelement).2.string = s.lastSent then []
          else [truncated (orig pelement).2.string]) := by
    constructor
    · rintro ⟨u, hu, -, hpackets⟩
      rw [hu, Option.map_some, hpackets]
    · intro h
      obtain ⟨u, hu, hpackets⟩ := Option.map_eq_some_iff.mp h
      exact ⟨u, hu, hs.host.callback hu, hpackets⟩
  have hpackets := congrArg (Option.map Prod.fst) hsent
  rw [Option.map_map] at hpackets
  rw [hexact]
  refine (Eq.congr_left hpackets).trans ?_
  simp only [Comparable, hs.sent]
  cases hstring : (orig pelement).2.string with
  | none =>
    by_cases hempty : s.lastSent = []
    · simp [hempty]
    · simp [hempty, truncated, cString, eq_comm]
  | some string =>
    have htruncated : truncated (some string) = (cString string).take bufferSize := rfl
    have hcopied : strncpy string = (cString string).take bufferSize := rfl
    by_cases hsame : cString string = s.lastSent
    · simp [htruncated, hsame, hvalue, List.take_of_length_le hvalue]
    · by_cases hshort : (cString string).length ≤ bufferSize
      · simp [htruncated, hcopied, List.take_of_length_le hshort, hsame, hshort]
      · by_cases hbeginning : (cString string).take bufferSize = s.lastSent
        · simp [htruncated, hcopied, hbeginning, hsame, hshort]
        · simp [htruncated, hcopied, hbeginning, hsame]

/-- A call does what is expected exactly when the string can be compared. -/
theorem Linked.exact_iff (hs : s.Linked) (a : StringAction) : s.Exact a ↔ s.Comparable a := by
  cases a with
  | sendFullState => exact Iff.rfl
  | deliver => exact Iff.rfl
  | clientCallback pelement orig =>
    obtain ⟨u, hu, -, hsafe, hshown⟩ := StringData.callback_client hs.client pelement orig
    refine iff_of_true ⟨u, hu, hsafe, hs.delivered ▸ hshown, fun hwire => ?_⟩ trivial
    have hlast := hs.last
    rwa [hwire] at hlast
  | hostCallback pelement orig =>
    exact hs.hostCallback_iff pelement orig

/-- The elements are linked in every state. -/
theorem linked_of_reachable (hs : stringMachine.Reachable s) : s.Linked :=
  hs.invariant (fun _ ⟨_, _, _, _, h⟩ => h ▸ linked_start ..) fun _ _ _ _ hlinked h =>
    hlinked.step h

/-- In a run from two new elements every call does what is expected exactly when every string a
host's callback reads can be compared. -/
theorem strings_exact_iff (hostValue hostBuffer clientValue clientBuffer : CharArray)
    (as : List StringAction) :
    stringMachine.Along Exact (start hostValue hostBuffer clientValue clientBuffer) as ↔
      stringMachine.Along Comparable (start hostValue hostBuffer clientValue clientBuffer) as :=
  Machine.along_congr (fun _ a hs => (linked_of_reachable hs).exact_iff a)
    (.initial ⟨_, _, _, _, rfl⟩) as

/-- Cleared memory. -/
def blank : CharArray := Vector.replicate (bufferSize + 1) 0

/-- A host's callback with a string of its own. -/
def reads (string : Option Str) : StringAction :=
  .hostCallback { imageFlags := 0 } fun pelement => (.zero, { pelement with string := string })

/-- A null pointer first of all is passed to `strcmp`, and a string of one character too much is
sent twice. -/
theorem strings_not_exact :
    ¬ stringMachine.Along Exact (start blank blank blank blank) [reads none] ∧
      ¬ stringMachine.Along Exact (start blank blank blank blank)
        [reads (some (List.replicate 257 65)), reads (some (List.replicate 257 65))] := by
  have hcongr := fun as => Machine.along_congr (fun s a hs => (linked_of_reachable hs).exact_iff a)
    (Machine.ReachableVia.initial ⟨blank, blank, blank, blank, rfl⟩) as
  rw [hcongr, hcongr]
  decide +kernel

end StringPair

end Multicrew.Gauge
