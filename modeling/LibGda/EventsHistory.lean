import LibGda.Gint
import LibGda.RunInvariant
import Mathlib.Data.List.DropRight

/-! The events of a connection: a circular array with one slot which is given up, and the list
`gda_connection_get_events` gave last. -/

namespace LibGda

open RunInvariant

inductive EventsFault where
  | outOfBounds
  | assertionFailed
  /-- a loop which never comes to its end -/
  | loops
  deriving DecidableEq

def eventsArrayInitialSize : Nat := 5

/-- The events of a `GdaConnection`. A slot of the array is empty, or holds an event which may be
an old one, to be used again. -/
structure EventsHistory (ε : Type) where
  autoClearEvents : Bool := true
  eventsArray : List (Option ε) := List.replicate eventsArrayInitialSize none
  eventsArraySize : Int := eventsArrayInitialSize
  eventsArrayFull : Bool := false
  eventsArrayNext : Nat := 0
  eventsList : List ε := []
  deriving DecidableEq

namespace EventsHistory

variable {ε : Type} (h : EventsHistory ε)

/-- `gda_connection_point_available_event`: the event to be used again, `none` for a new one. -/
def pointAvailableEvent : Except EventsFault (Option ε × EventsHistory ε) :=
  match h.eventsArray[h.eventsArrayNext]? with
  | none => .error .outOfBounds
  | some slot => .ok (slot, { h with eventsArray := h.eventsArray.set h.eventsArrayNext none })

def addEvent (event : ε) : Except EventsFault (EventsHistory ε) :=
  if h.eventsArrayNext < h.eventsArray.length then
    let array := h.eventsArray.set h.eventsArrayNext (some event)
    if (h.eventsArrayNext : Int) + 1 = h.eventsArraySize then
      .ok { h with
        eventsList := [], eventsArray := array, eventsArrayNext := 0, eventsArrayFull := true }
    else
      .ok { h with
        eventsList := [], eventsArray := array, eventsArrayNext := h.eventsArrayNext + 1 }
  else .error .outOfBounds

def takeEvent (taken : List (Option ε) × List ε) (i : Nat) :
    Except EventsFault (List (Option ε) × List ε) :=
  match taken.1[i]? with
  | none => .error .outOfBounds
  | some none => .error .assertionFailed
  | some (some event) => .ok (taken.1.set i none, taken.2 ++ [event])

def takeAround (size : Int) (next : Nat) :
    Nat → Nat → List (Option ε) × List ε → Except EventsFault (List (Option ε) × List ε)
  | 0, _, _ => .error .loops
  | fuel + 1, i, taken =>
    let i := if (i : Int) = size then 0 else i
    if i = next then .ok taken
    else do takeAround size next fuel (i + 1) (← takeEvent taken i)

def takeEvents : Except EventsFault (List (Option ε) × List ε) :=
  if h.eventsArrayFull then
    takeAround h.eventsArraySize h.eventsArrayNext (h.eventsArray.length + 1)
      (h.eventsArrayNext + 1) (h.eventsArray, [])
  else (List.range h.eventsArrayNext).foldlM takeEvent (h.eventsArray, [])

def getEvents : Except EventsFault (List ε × EventsHistory ε) :=
  if h.eventsList ≠ [] then .ok (h.eventsList, h)
  else do
    let (array, events) ← h.takeEvents
    .ok (events, { h with
      eventsArray := array, eventsList := events, eventsArrayFull := false, eventsArrayNext := 0 })

def clearConnectionEvents : EventsHistory ε :=
  if h.autoClearEvents then { h with eventsArrayFull := false, eventsArrayNext := 0 } else h

def changeEventsArrayMaxSize (size : Int) : Except EventsFault (EventsHistory ε) :=
  -- one more for the slot which is lost when the array turns
  let size := gint (size + 1)
  if size = h.eventsArraySize then .ok h
  else if h.eventsArraySize < size then
    -- the new slots are written from the old size on
    if h.eventsArraySize < 0 then .error .outOfBounds
    else
      let kept := h.eventsArray.take h.eventsArraySize.toNat
      let array := kept ++ List.replicate (size - h.eventsArraySize).toNat none
      .ok { h with
        eventsArray := array, eventsArraySize := size, eventsArrayFull := false,
        eventsArrayNext := 0 }
  else
    let array := if eventsArrayInitialSize ≤ size then h.eventsArray.take size.toNat
      else h.eventsArray
    .ok { h with
      eventsArray := array, eventsArraySize := size, eventsArrayFull := false,
      eventsArrayNext := 0 }

end EventsHistory

inductive EventCall (ε : Type) where
  | pointAvailableEvent
  | addEvent (event : ε)

/-- The values the property `events-history-size` takes. -/
abbrev HistorySize := { size : Int // eventsArrayInitialSize ≤ size ∧ size < 2 ^ 31 }

inductive EventsAction (ε : Type) where
  | call (call : EventCall ε)
  | getEvents
  | clearEventsList
  | setEventsHistorySize (size : HistorySize)
  /-- the calls of each statement which is executed, and the number of those behind a failed one -/
  | batchExecute (executed : List (List (EventCall ε))) (notExecuted : Nat)

def batchHistorySize (length : Nat) : Int := gint (length * 2)

namespace EventsHistory

variable {ε : Type} (h : EventsHistory ε)

def callStep (h : EventsHistory ε) : EventCall ε → Except EventsFault (EventsHistory ε)
  | .pointAvailableEvent => h.pointAvailableEvent.map (·.2)
  | .addEvent event => h.addEvent event

def executeStatement (h : EventsHistory ε) (calls : List (EventCall ε)) :
    Except EventsFault (EventsHistory ε) :=
  calls.foldlM callStep h.clearConnectionEvents

def batchExecute (executed : List (List (EventCall ε))) (notExecuted : Nat) :
    Except EventsFault (EventsHistory ε) := do
  let asked := batchHistorySize (executed.length + notExecuted)
  let h ← { h with autoClearEvents := false }.changeEventsArrayMaxSize asked
  let h ← executed.foldlM executeStatement h
  .ok { h with autoClearEvents := true }

def step (s : EventsHistory ε × List (List ε)) :
    EventsAction ε → Except EventsFault (EventsHistory ε × List (List ε))
  | .call c => (s.1.callStep c).map (·, s.2)
  | .getEvents => s.1.getEvents.map fun (events, h) => (h, s.2 ++ [events])
  | .clearEventsList => .ok (s.1.clearConnectionEvents, s.2)
  | .setEventsHistorySize size => (s.1.changeEventsArrayMaxSize size.1).map (·, s.2)
  | .batchExecute executed notExecuted => (s.1.batchExecute executed notExecuted).map (·, s.2)

end EventsHistory

def recentEvents {ε : Type} (size : Nat) (added : List ε) : List ε :=
  if added.length < size then added else added.rtake (size - 1)

/-- What is known of the events from outside: those added since they were last fetched or
cleared, and the lists to be returned. -/
structure EventsLog (ε : Type) where
  arraySize : Nat := eventsArrayInitialSize
  added : List ε := []
  returned : List (List ε) := []

namespace EventsLog

variable {ε : Type} (l : EventsLog ε)

def addCall (l : EventsLog ε) : EventCall ε → EventsLog ε
  | .pointAvailableEvent => l
  | .addEvent event => { l with added := l.added ++ [event] }

def next (l : EventsLog ε) : EventsAction ε → EventsLog ε
  | .call c => l.addCall c
  | .getEvents =>
    { l with added := [], returned := l.returned ++ [recentEvents l.arraySize l.added] }
  | .clearEventsList => { l with added := [] }
  | .setEventsHistorySize size => { l with arraySize := (gint (size.1 + 1)).toNat, added := [] }
  | .batchExecute executed notExecuted =>
    let asked := batchHistorySize (executed.length + notExecuted)
    executed.flatten.foldl addCall { l with arraySize := (gint (asked + 1)).toNat, added := [] }

end EventsLog

end LibGda

/-! Which events `gda_connection_get_events` returns, in any order of the calls. -/

namespace LibGda

open RunInvariant

namespace EventsHistory

variable {ε : Type} {h : EventsHistory ε} {size : Nat} {added : List ε}

/-- In an array which is not full the events are behind one another from its start, in a full one
the older ones behind the next slot and the newer ones before it. -/
inductive Holds (h : EventsHistory ε) (size : Nat) (added : List ε) : Prop
  | filling (rest : List (Option ε)) (hfull : h.eventsArrayFull = false)
      (harray : h.eventsArray = added.map some ++ rest) (hnext : h.eventsArrayNext = added.length)
      (hsize : added.length < size)
  | turned (newer older : List ε) (slot : Option ε) (rest : List (Option ε))
      (hfull : h.eventsArrayFull = true)
      (harray : h.eventsArray = newer.map some ++ slot :: (older.map some ++ rest))
      (hnext : h.eventsArrayNext = newer.length) (hsize : newer.length + older.length + 1 = size)
      (hadded : size ≤ added.length)
      (hlast : added.rtake (newer.length + older.length) = older ++ newer)

structure Sized (h : EventsHistory ε) (size : Nat) : Prop where
  size_eq : h.eventsArraySize = size
  inside : size ≤ h.eventsArray.length

theorem rtake_concat {n : Nat} {l : List ε} (hn : n ≤ l.length) (e : ε) :
    (l ++ [e]).rtake n = (l.rtake n ++ [e]).tail := by
  rw [List.rtake, List.rtake, ← List.drop_append_of_le_length (Nat.sub_le _ _), List.tail_drop,
    List.length_append, List.length_singleton]
  congr 1
  omega

theorem Holds.next_lt (hholds : h.Holds size added) (hsized : h.Sized size) :
    h.eventsArrayNext < h.eventsArray.length := by
  have hin := hsized.inside
  cases hholds with
  | filling rest hfull harray hnext hsize => omega
  | turned newer older slot rest hfull harray hnext hsize hadded hlast => omega

theorem set_next {front rest : List (Option ε)} (slot value : Option ε) :
    (front ++ slot :: rest).set front.length value = front ++ value :: rest := by
  rw [List.set_append_right _ _ (Nat.le_refl _), Nat.sub_self, List.set_cons_zero]

theorem Holds.point (hholds : h.Holds size added) (hsized : h.Sized size) :
    ∃ taken, h.pointAvailableEvent = .ok taken ∧ taken.2.Holds size added ∧ taken.2.Sized size ∧
      taken.2.autoClearEvents = h.autoClearEvents := by
  have hlt := hholds.next_lt hsized
  have hin : size ≤ (h.eventsArray.set h.eventsArrayNext none).length := by
    rw [List.length_set]
    exact hsized.inside
  rw [pointAvailableEvent, List.getElem?_eq_getElem hlt]
  refine ⟨_, rfl, ?_, ⟨hsized.size_eq, hin⟩, rfl⟩
  cases hholds with
  | filling rest hfull harray hnext hsize =>
    refine .filling (rest.set 0 none) hfull ?_ hnext hsize
    show h.eventsArray.set h.eventsArrayNext none = _
    rw [harray, hnext, List.set_append_right _ _ (by simp)]
    simp
  | turned newer older slot rest hfull harray hnext hsize hadded hlast =>
    refine .turned newer older none rest hfull ?_ hnext hsize hadded hlast
    show h.eventsArray.set h.eventsArrayNext none = _
    rw [harray, hnext, ← List.length_map (f := some), set_next]

theorem Holds.of_wrapped {events : List ε} {rest : List (Option ε)} (e : ε)
    (hfull : h.eventsArrayFull = true) (harray : h.eventsArray = (events ++ [e]).map some ++ rest)
    (hnext : h.eventsArrayNext = 0) (hsize : events.length + 1 = size) (hadded : size ≤ added.length)
    (hlast : added.rtake events.length = (events ++ [e]).tail) : h.Holds size added := by
  obtain ⟨first, others, heq⟩ := List.exists_cons_of_ne_nil (List.append_ne_nil_of_right_ne_nil events (List.cons_ne_nil e []))
  have hlen : events.length = others.length := by
    have := congrArg List.length heq
    simpa using this
  refine .turned [] others (some first) rest hfull ?_ hnext ?_ hadded ?_
  · rw [harray, heq]
    rfl
  · rw [← hsize, hlen, List.length_nil, Nat.zero_add]
  · rw [List.length_nil, Nat.zero_add, ← hlen, hlast, heq, List.append_nil]
    rfl

theorem Holds.add (hholds : h.Holds size added) (hsized : h.Sized size) (e : ε) :
    ∃ h', h.addEvent e = .ok h' ∧ h'.Holds size (added ++ [e]) ∧ h'.Sized size ∧
      h'.autoClearEvents = h.autoClearEvents := by
  have hin : size ≤ (h.eventsArray.set h.eventsArrayNext (some e)).length := by
    rw [List.length_set]
    exact hsized.inside
  have hwrap : (h.eventsArrayNext : Int) + 1 = h.eventsArraySize ↔ h.eventsArrayNext + 1 = size := by
    rw [hsized.size_eq]
    omega
  rw [addEvent, if_pos (hholds.next_lt hsized)]
  simp only [hwrap]
  cases hholds with
  | filling rest hfull harray hnext hsize =>
    have hne : rest ≠ [] := by
      rintro rfl
      have hlen := hsized.inside
      rw [harray, List.append_nil, List.length_map] at hlen
      omega
    obtain ⟨slot, rest, rfl⟩ := List.exists_cons_of_ne_nil hne
    have hset : h.eventsArray.set h.eventsArrayNext (some e) =
        (added ++ [e]).map some ++ rest := by
      rw [harray, hnext, ← List.length_map (f := some), set_next]
      simp
    split
    · rename_i hend
      rw [hnext] at hend
      refine ⟨_, rfl, ?_, ⟨hsized.size_eq, hin⟩, rfl⟩
      refine .of_wrapped e rfl hset rfl hend (by simp [hend]) ?_
      rw [rtake_concat (Nat.le_refl _), List.rtake, Nat.sub_self, List.drop_zero]
    · rename_i hend
      rw [hnext] at hend
      refine ⟨_, rfl, ?_, ⟨hsized.size_eq, hin⟩, rfl⟩
      have hlen : (added ++ [e]).length = added.length + 1 := by simp
      exact .filling rest hfull hset (hlen ▸ congrArg (· + 1) hnext) (by omega)
  | turned newer older slot rest hfull harray hnext hsize hadded hlast =>
    have hset : h.eventsArray.set h.eventsArrayNext (some e) =
        newer.map some ++ some e :: (older.map some ++ rest) := by
      rw [harray, hnext, ← List.length_map (f := some), set_next]
    have hmore : size ≤ (added ++ [e]).length := by
      rw [List.length_append]
      omega
    have hturned : (added ++ [e]).rtake (newer.length + older.length) =
        (older ++ newer ++ [e]).tail := by
      rw [rtake_concat (by omega), hlast]
    cases older with
    | nil =>
      rw [if_pos (by rw [hnext]; exact hsize)]
      refine ⟨_, rfl, ?_, ⟨hsized.size_eq, hin⟩, rfl⟩
      have hwhole : h.eventsArray.set h.eventsArrayNext (some e) =
          (newer ++ [e]).map some ++ rest := by
        rw [hset]
        simp
      exact .of_wrapped e rfl hwhole rfl hsize hmore hturned
    | cons oldest older =>
      rw [List.length_cons] at hsize
      rw [if_neg (by omega)]
      refine ⟨_, rfl, ?_, ⟨hsized.size_eq, hin⟩, rfl⟩
      refine .turned (newer ++ [e]) older (some oldest) rest hfull ?_ ?_ ?_ hmore ?_
      · show h.eventsArray.set h.eventsArrayNext (some e) = _
        rw [hset]
        simp
      · show h.eventsArrayNext + 1 = _
        rw [hnext, List.length_append, List.length_singleton]
      · rw [List.length_append, List.length_singleton]
        omega
      · have hlen : (newer ++ [e]).length + older.length = newer.length + (oldest :: older).length := by
          simp
          omega
        rw [hlen, hturned]
        simp

section Fetch

variable {front rest : List (Option ε)} {taken events : List ε}

theorem takeEvents_range (front rest : List (Option ε)) (taken events : List ε) :
    (List.range' front.length events.length).foldlM takeEvent
        (front ++ (events.map some ++ rest), taken) =
      .ok (front ++ (List.replicate events.length none ++ rest), taken ++ events) := by
  induction events generalizing front taken with
  | nil =>
    rw [List.append_nil]
    rfl
  | cons e events ih =>
    have htake : takeEvent (front ++ ((e :: events).map some ++ rest), taken) front.length =
        .ok (front ++ [none] ++ (events.map some ++ rest), taken ++ [e]) := by
      rw [takeEvent, List.getElem?_append_right (Nat.le_refl _), Nat.sub_self]
      simp
    have hrest := ih (front ++ [none]) (taken ++ [e])
    rw [List.length_append, List.length_singleton] at hrest
    rw [List.length_cons, List.range'_succ, List.foldlM_cons, htake]
    show (List.range' (front.length + 1) events.length).foldlM takeEvent _ = _
    rw [hrest, List.replicate_succ]
    simp

theorem takeAround_before {size : Int} {next : Nat} (hnext : (next : Int) < size) (n i fuel : Nat)
    (hi : i + n = next) (hfuel : n < fuel) (t : List (Option ε) × List ε) :
    takeAround size next fuel i t = (List.range' i n).foldlM takeEvent t := by
  induction n generalizing i fuel t with
  | zero =>
    obtain ⟨fuel, rfl⟩ := Nat.exists_eq_succ_of_ne_zero (Nat.ne_of_gt hfuel)
    have hin : (i : Int) ≠ size := by omega
    rw [takeAround]
    simp only [hin, if_false]
    rw [if_pos (by omega)]
    rfl
  | succ n ih =>
    obtain ⟨fuel, rfl⟩ := Nat.exists_eq_succ_of_ne_zero (Nat.ne_of_gt (Nat.zero_lt_of_lt hfuel))
    have hin : (i : Int) ≠ size := by omega
    rw [takeAround]
    simp only [hin, if_false]
    rw [if_neg (by omega), List.range'_succ, List.foldlM_cons]
    congr 1
    funext t
    exact ih (i + 1) fuel (by omega) (by omega) t

theorem takeAround_behind {size next : Nat} (hnext : next < size) (n i fuel : Nat)
    (hi : i + n = size) (hlt : next < i) (hfuel : n + next < fuel)
    (t : List (Option ε) × List ε) :
    takeAround size next fuel i t =
      (List.range' i n ++ List.range' 0 next).foldlM takeEvent t := by
  induction n generalizing i fuel t with
  | zero =>
    obtain ⟨fuel, rfl⟩ := Nat.exists_eq_succ_of_ne_zero (Nat.ne_of_gt (Nat.zero_lt_of_lt hfuel))
    have hend : (i : Int) = size := by omega
    have hstart : takeAround (size : Int) next (fuel + 1) i t =
        takeAround size next (fuel + 1) 0 t := by
      have h0 : ((0 : Nat) : Int) ≠ size := by omega
      rw [takeAround, takeAround]
      simp only [hend, h0, if_true, if_false]
    rw [hstart]
    exact takeAround_before (by omega) next 0 (fuel + 1) (by omega) (by omega) t
  | succ n ih =>
    obtain ⟨fuel, rfl⟩ := Nat.exists_eq_succ_of_ne_zero (Nat.ne_of_gt (Nat.zero_lt_of_lt hfuel))
    have hin : (i : Int) ≠ size := by omega
    rw [takeAround]
    simp only [hin, if_false]
    rw [if_neg (by omega), List.range'_succ, List.cons_append, List.foldlM_cons]
    congr 1
    funext t
    exact ih (i + 1) fuel (by omega) (by omega) (by omega) t

theorem holds_nil {h : EventsHistory ε} (hfull : h.eventsArrayFull = false)
    (hnext : h.eventsArrayNext = 0) (hsize : 0 < size) : h.Holds size [] :=
  .filling h.eventsArray hfull rfl hnext hsize

theorem Holds.take (hholds : h.Holds size added) (hsized : h.Sized size) :
    ∃ array : List (Option ε), h.takeEvents = .ok (array, recentEvents size added) ∧
      array.length = h.eventsArray.length := by
  cases hholds with
  | filling rest hfull harray hnext hsize =>
    have htake := takeEvents_range [] rest [] added
    refine ⟨List.replicate added.length none ++ rest, ?_, ?_⟩
    · rw [takeEvents, hfull, if_neg Bool.false_ne_true, List.range_eq_range', hnext, harray, recentEvents,
        if_pos hsize]
      exact htake
    · rw [harray]
      simp
  | turned newer older slot rest hfull harray hnext hsize hadded hlast =>
    have hbehind := takeEvents_range (newer.map some ++ [slot]) rest [] older
    have hbefore := takeEvents_range [] (slot :: (List.replicate older.length none ++ rest)) older
      newer
    refine ⟨List.replicate newer.length none ++
      (slot :: (List.replicate older.length none ++ rest)), ?_, ?_⟩
    · have hlong : size ≤ h.eventsArray.length := hsized.inside
      have hn : size - 1 = newer.length + older.length := by omega
      rw [takeEvents, hfull, if_pos rfl, hsized.size_eq,
        takeAround_behind (by omega) older.length (h.eventsArrayNext + 1) _ (by omega)
          (Nat.lt_succ_self _) (by omega), List.foldlM_append, harray, hnext, recentEvents,
        if_neg (by omega), hn, hlast]
      simp only [List.append_assoc, List.length_append, List.length_map, List.length_singleton,
        List.singleton_append, List.nil_append] at hbehind hbefore
      rw [hbehind]
      exact hbefore
    · rw [harray]
      simp

theorem Holds.get (hholds : h.Holds size added) (hsized : h.Sized size) (hpos : 0 < size)
    (hlist : h.eventsList = []) :
    ∃ h', h.getEvents = .ok (recentEvents size added, h') ∧ h'.Holds size [] ∧ h'.Sized size ∧
      h'.autoClearEvents = h.autoClearEvents := by
  obtain ⟨array, htaken, hlen⟩ := hholds.take hsized
  have hin : size ≤ array.length := hlen ▸ hsized.inside
  refine ⟨{ h with
    eventsArray := array, eventsList := recentEvents size added, eventsArrayFull := false,
    eventsArrayNext := 0 }, ?_, holds_nil rfl rfl hpos, ⟨hsized.size_eq, hin⟩, rfl⟩
  rw [getEvents, if_neg (by simp [hlist]), htaken]
  rfl

end Fetch

def Resizes (h : EventsHistory ε) (size : Int) : Prop :=
  eventsArrayInitialSize ≤ gint (size + 1) ∧
    (gint (size + 1) = h.eventsArraySize → h.eventsArrayNext = 0 ∧ h.eventsArrayFull = false)

instance (h : EventsHistory ε) (size : Int) : Decidable (h.Resizes size) :=
  inferInstanceAs (Decidable (_ ∧ (_ → _)))

theorem Sized.resize (hsized : h.Sized size) {asked : Int} (hmeets : h.Resizes asked) :
    ∃ h', h.changeEventsArrayMaxSize asked = .ok h' ∧ h'.Holds (gint (asked + 1)).toNat [] ∧
      h'.Sized (gint (asked + 1)).toNat ∧ h'.autoClearEvents = h.autoClearEvents := by
  obtain ⟨hlow, hidle⟩ := hmeets
  have hlow' : (5 : Int) ≤ gint (asked + 1) := hlow
  have hpos : 0 < (gint (asked + 1)).toNat := by omega
  have hnat : gint (asked + 1) = ((gint (asked + 1)).toNat : Int) := by omega
  have hcur := hsized.size_eq
  have hin := hsized.inside
  rw [changeEventsArrayMaxSize]
  simp only
  by_cases hsame : gint (asked + 1) = h.eventsArraySize
  · obtain ⟨hnext, hfull⟩ := hidle hsame
    rw [if_pos hsame]
    have heq : size = (gint (asked + 1)).toNat := by omega
    exact ⟨h, rfl, holds_nil hfull hnext hpos, heq ▸ hsized, rfl⟩
  · rw [if_neg hsame]
    by_cases hgrows : h.eventsArraySize < gint (asked + 1)
    · rw [if_pos hgrows, if_neg (by omega)]
      refine ⟨_, rfl, holds_nil rfl rfl hpos, ⟨hnat, ?_⟩, rfl⟩
      rw [List.length_append, List.length_take, List.length_replicate]
      omega
    · rw [if_neg hgrows, if_pos hlow]
      refine ⟨_, rfl, holds_nil rfl rfl hpos, ⟨hnat, ?_⟩, rfl⟩
      rw [List.length_take]
      omega

theorem Holds.call (hholds : h.Holds size added) (hsized : h.Sized size) (c : EventCall ε)
    {returned : List (List ε)} :
    ∃ h', h.callStep c = .ok h' ∧
      h'.Holds size ((⟨size, added, returned⟩ : EventsLog ε).addCall c).added ∧ h'.Sized size ∧
      h'.autoClearEvents = h.autoClearEvents := by
  cases c with
  | pointAvailableEvent =>
    obtain ⟨taken, heq, hkept⟩ := hholds.point hsized
    refine ⟨taken.2, ?_, hkept⟩
    rw [callStep, heq]
    rfl
  | addEvent e => exact hholds.add hsized e

end EventsHistory

theorem EventsLog.addCall_eq {ε : Type} (l : EventsLog ε) (c : EventCall ε) :
    l.addCall c = { l with added := (l.addCall c).added } := by
  cases c <;> rfl

theorem EventsLog.foldl_addCall_eq {ε : Type} (l : EventsLog ε) (calls : List (EventCall ε)) :
    calls.foldl addCall l = { l with added := (calls.foldl addCall l).added } := by
  induction calls generalizing l with
  | nil => rfl
  | cons c calls ih =>
    rw [List.foldl_cons, ih, l.addCall_eq c]

namespace EventsHistory

variable {ε : Type} {h : EventsHistory ε} {l : EventsLog ε}

structure Follows (h : EventsHistory ε) (l : EventsLog ε) : Prop where
  holds : h.Holds l.arraySize l.added
  sized : h.Sized l.arraySize
  atLeast : eventsArrayInitialSize ≤ l.arraySize

theorem Follows.call (hf : h.Follows l) (c : EventCall ε) :
    ∃ h', h.callStep c = .ok h' ∧ h'.Follows (l.addCall c) ∧
      h'.autoClearEvents = h.autoClearEvents := by
  obtain ⟨h', heq, hholds, hsized, hauto⟩ := hf.holds.call hf.sized c
  refine ⟨h', heq, ?_, hauto⟩
  rw [l.addCall_eq c]
  exact ⟨hholds, hsized, hf.atLeast⟩

theorem Follows.calls (hf : h.Follows l) (calls : List (EventCall ε)) :
    ∃ h', calls.foldlM callStep h = .ok h' ∧ h'.Follows (calls.foldl EventsLog.addCall l) ∧
      h'.autoClearEvents = h.autoClearEvents := by
  induction calls generalizing h l with
  | nil => exact ⟨h, rfl, hf, rfl⟩
  | cons c calls ih =>
    obtain ⟨u, hu, hfu, hauto⟩ := hf.call c
    obtain ⟨h', heq, hkept, hlast⟩ := ih hfu
    refine ⟨h', ?_, hkept, hlast.trans hauto⟩
    rw [List.foldlM_cons, hu]
    exact heq

theorem Follows.statements (hf : h.Follows l) (hauto : h.autoClearEvents = false)
    (executed : List (List (EventCall ε))) :
    ∃ h', executed.foldlM executeStatement h = .ok h' ∧
      h'.Follows (executed.flatten.foldl EventsLog.addCall l) := by
  induction executed generalizing h l with
  | nil => exact ⟨h, rfl, hf⟩
  | cons calls executed ih =>
    obtain ⟨u, hu, hfu, hkept⟩ := hf.calls calls
    obtain ⟨h', heq, hlast⟩ := ih hfu (hkept.trans hauto)
    refine ⟨h', ?_, ?_⟩
    · have hclear : h.clearConnectionEvents = h := by
        rw [clearConnectionEvents, hauto]
        rfl
      rw [List.foldlM_cons, executeStatement, hclear, hu]
      exact heq
    · rw [List.flatten_cons, List.foldl_append]
      exact hlast

theorem Follows.of_sized {size : Nat} {asked : Int} (hsized : h.Sized size) (hmeets : h.Resizes asked)
    (returned : List (List ε)) :
    ∃ h', h.changeEventsArrayMaxSize asked = .ok h' ∧
      h'.Follows ⟨(gint (asked + 1)).toNat, [], returned⟩ ∧
      h'.autoClearEvents = h.autoClearEvents := by
  obtain ⟨h', heq, hholds, hnew, hauto⟩ := hsized.resize hmeets
  have hlow : (5 : Int) ≤ gint (asked + 1) := hmeets.1
  have hatLeast : 5 ≤ (gint (asked + 1)).toNat := by omega
  exact ⟨h', heq, ⟨hholds, hnew, hatLeast⟩, hauto⟩

theorem Follows.batch (hf : h.Follows l) (executed : List (List (EventCall ε))) (notExecuted : Nat)
    (hmeets : h.Resizes (batchHistorySize (executed.length + notExecuted))) :
    ∃ h', h.batchExecute executed notExecuted = .ok h' ∧
      h'.Follows (l.next (.batchExecute executed notExecuted)) ∧ h'.autoClearEvents = true := by
  have hbegin : Sized { h with autoClearEvents := false } l.arraySize :=
    ⟨hf.sized.size_eq, hf.sized.inside⟩
  obtain ⟨u, hu, hfu, hauto⟩ := Follows.of_sized hbegin hmeets l.returned
  obtain ⟨v, hv, hfv⟩ := hfu.statements hauto executed
  refine ⟨{ v with autoClearEvents := true }, ?_, ?_, rfl⟩
  · rw [batchExecute, hu]
    show executed.foldlM executeStatement u >>= _ = _
    rw [hv]
    rfl
  · obtain ⟨hholds, hsized, hatLeast⟩ := hfv
    refine ⟨?_, ⟨hsized.size_eq, hsized.inside⟩, hatLeast⟩
    cases hholds with
    | filling rest hfull harray hnext hsize => exact .filling rest hfull harray hnext hsize
    | turned newer older slot rest hfull harray hnext hsize hadded hlast =>
      exact .turned newer older slot rest hfull harray hnext hsize hadded hlast

/-- The events are fetched while there is no list fetched before, and the array is resized to a size
it can have. -/
def EventsMeet (s : EventsHistory ε × List (List ε)) : EventsAction ε → Prop
  | .call _ => True
  | .getEvents => s.1.eventsList = []
  | .clearEventsList => True
  | .setEventsHistorySize size => s.1.Resizes size.1
  | .batchExecute executed notExecuted =>
    s.1.Resizes (batchHistorySize (executed.length + notExecuted))

instance : ∀ (s : EventsHistory ε × List (List ε)) (a : EventsAction ε), Decidable (EventsMeet s a)
  | _, .call _ => isTrue trivial
  | s, .getEvents => decidable_of_iff (s.1.eventsList.isEmpty = true) List.isEmpty_iff
  | _, .clearEventsList => isTrue trivial
  | s, .setEventsHistorySize size => inferInstanceAs (Decidable (s.1.Resizes size.1))
  | s, .batchExecute executed notExecuted =>
    inferInstanceAs (Decidable (s.1.Resizes (batchHistorySize (executed.length + notExecuted))))

/-- No assertion has failed, and the events were returned which had been added since the last fetch,
clearing or resizing. -/
theorem getEvents_run (actions : List (EventsAction ε))
    (hmeets : StepsMeet step EventsMeet ({}, []) actions) :
    ∃ s, run step ({}, []) actions = .ok s ∧
      s.2 = (actions.foldl EventsLog.next {}).returned ∧
      eventsArrayInitialSize ≤ s.1.eventsArraySize ∧
      eventsArrayInitialSize ≤ s.1.eventsArray.length := by
  have hstep : ∀ (s : EventsHistory ε × List (List ε)) (l : EventsLog ε) (a : EventsAction ε),
      (s.1.Follows l ∧ s.1.autoClearEvents = true ∧ s.2 = l.returned) → EventsMeet s a →
      ∃ s', step s a = .ok s' ∧ s'.1.Follows (l.next a) ∧ s'.1.autoClearEvents = true ∧
        s'.2 = (l.next a).returned := by
    rintro ⟨h, returned⟩ l a ⟨hf, hauto, hreturned⟩ hmeets
    cases a with
    | call c =>
      obtain ⟨h', heq, hkept, hsame⟩ := hf.call c
      refine ⟨(h', returned), ?_, hkept, hsame.trans hauto, ?_⟩
      · rw [step, heq]
        rfl
      · rw [EventsLog.next, l.addCall_eq c]
        exact hreturned
    | getEvents =>
      have hpos : 0 < l.arraySize := Nat.lt_of_lt_of_le (by decide) hf.atLeast
      obtain ⟨h', heq, hholds, hsized, hsame⟩ := hf.holds.get hf.sized hpos hmeets
      refine ⟨(h', returned ++ [recentEvents l.arraySize l.added]), ?_,
        ⟨hholds, hsized, hf.atLeast⟩, hsame.trans hauto, ?_⟩
      · rw [step, heq]
        rfl
      · exact congrArg (· ++ _) hreturned
    | clearEventsList =>
      have hpos : 0 < l.arraySize := Nat.lt_of_lt_of_le (by decide) hf.atLeast
      refine ⟨_, rfl, ?_, ?_, hreturned⟩
      · have hclear : h.clearConnectionEvents =
            { h with eventsArrayFull := false, eventsArrayNext := 0 } := if_pos hauto
        show h.clearConnectionEvents.Follows _
        rw [hclear]
        exact ⟨holds_nil rfl rfl hpos, ⟨hf.sized.size_eq, hf.sized.inside⟩, hf.atLeast⟩
      · show h.clearConnectionEvents.autoClearEvents = true
        rw [clearConnectionEvents]
        split <;> exact hauto
    | setEventsHistorySize size =>
      obtain ⟨h', heq, hkept, hsame⟩ := Follows.of_sized hf.sized hmeets l.returned
      refine ⟨(h', returned), ?_, hkept, hsame.trans hauto, hreturned⟩
      rw [step, heq]
      rfl
    | batchExecute executed notExecuted =>
      obtain ⟨h', heq, hkept, hsame⟩ := hf.batch executed notExecuted hmeets
      refine ⟨(h', returned), ?_, hkept, hsame, ?_⟩
      · rw [step, heq]
        rfl
      · rw [EventsLog.next, EventsLog.foldl_addCall_eq]
        exact hreturned
  have hnew : Follows ({} : EventsHistory ε) {} :=
    ⟨holds_nil rfl rfl (Nat.zero_lt_succ 4), ⟨rfl, Nat.le_refl _⟩, Nat.le_refl _⟩
  obtain ⟨s, hrun, hf, -, hreturned⟩ := run_simulates
    (R := fun s l => Follows s.1 l ∧ s.1.autoClearEvents = true ∧ s.2 = l.returned) hstep
    ⟨hnew, rfl, rfl⟩ hmeets
  refine ⟨s, hrun, hreturned, ?_, Nat.le_trans hf.atLeast hf.sized.inside⟩
  rw [hf.sized.size_eq]
  exact Int.ofNat_le.2 hf.atLeast

def exampleCalls : List (EventsAction Nat) :=
  ([1, 2, 3, 4, 5, 6].map fun e => .call (.addEvent e)) ++
    [.getEvents, .batchExecute [[.pointAvailableEvent, .addEvent 7], [.addEvent 8]] 1,
      .setEventsHistorySize ⟨9, by decide⟩, .call (.addEvent 9), .getEvents]

theorem exampleCalls_fetched :
    ∃ s, run step ({}, []) exampleCalls = .ok s ∧ s.2 = [[3, 4, 5, 6], [9]] ∧
      eventsArrayInitialSize ≤ s.1.eventsArraySize ∧
      eventsArrayInitialSize ≤ s.1.eventsArray.length :=
  getEvents_run exampleCalls (by decide)

/-- A batch without statements leaves an array of one slot, from which no event is fetched. -/
theorem emptyBatch_loses_event :
    ¬ ∃ s, run step (({} : EventsHistory Nat), [])
        [.batchExecute [] 0, .call (.addEvent 7), .getEvents] = .ok s ∧ s.2 = [[7]] ∧
      eventsArrayInitialSize ≤ s.1.eventsArraySize ∧
      eventsArrayInitialSize ≤ s.1.eventsArray.length := by
  rintro ⟨s, hrun, hreturned, -⟩
  obtain rfl := Except.ok.inj hrun
  cases hreturned

end EventsHistory

end LibGda
