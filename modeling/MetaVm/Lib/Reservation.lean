import MetaVm.Lib.Numerals

namespace MetaVm.Reservation

/-! A monitor for load-reserved and store-conditional pairs. It holds the range that was last
reserved and drops it at the writes that it detects to overlap. -/

variable {R : Type*}

/-- What an access does to ranges of memory. -/
inductive Event (R : Type*)
  | reserve (range : R)
  | write (range : R)
  | update (range : R)
  | succeed (range : R)
  | release
  | skip
deriving DecidableEq

/-- The range that an event writes. -/
def Event.written : Event R → Option R
  | write range | update range | succeed range => some range
  | reserve _ | release | skip => none

/-- The reservation after an event: an atomic update and a conditional store always drop it. -/
def next (detects : R → R → Bool) (held : Option R) : Event R → Option R
  | .reserve range => some range
  | .write range => held.filter fun reserved => !detects range reserved
  | .update _ | .succeed _ | .release => none
  | .skip => held

def heldAfter (detects : R → R → Bool) (events : List (Event R)) : Option R :=
  events.foldl (next detects) none

/-- A range was reserved, and since then no other was and no write overlapped it. -/
def Unbroken (overlaps : R → R → Prop) (events : List (Event R)) (reserved : R) : Prop :=
  ∃ before between, events = before ++ .reserve reserved :: between ∧
    ∀ event ∈ between, (∀ other, event ≠ .reserve other) ∧
      ∀ range, event.written = some range → ¬ overlaps range reserved

variable {detects : R → R → Bool} {overlaps : R → R → Prop} {events : List (Event R)}
  {event : Event R} {reserved : R}

theorem heldAfter_concat (events : List (Event R)) (event : Event R) :
    heldAfter detects (events ++ [event]) = next detects (heldAfter detects events) event := by
  rw [heldAfter, List.foldl_append]
  rfl

theorem Unbroken.reserve (events : List (Event R)) (reserved : R) :
    Unbroken overlaps (events ++ [.reserve reserved]) reserved :=
  ⟨events, [], rfl, fun _ absent => absurd absent List.not_mem_nil⟩

theorem Unbroken.concat (unbroken : Unbroken overlaps events reserved)
    (notReserve : ∀ other, event ≠ .reserve other)
    (apart : ∀ range, event.written = some range → ¬ overlaps range reserved) :
    Unbroken overlaps (events ++ [event]) reserved := by
  obtain ⟨before, between, rfl, clear⟩ := unbroken
  refine ⟨before, between ++ [event], by simp, ?_⟩
  intro late member
  rcases List.mem_append.1 member with early | last
  · exact clear late early
  · rw [List.mem_singleton.1 last]
    exact ⟨notReserve, apart⟩

/-- Every write that overlapped the range held when it was made was detected. -/
def Detected (detects : R → R → Bool) (overlaps : R → R → Prop) (events : List (Event R)) :
    Prop :=
  ∀ before range later, events = before ++ .write range :: later →
    ∀ reserved, heldAfter detects before = some reserved → overlaps range reserved →
      detects range reserved = true

theorem Detected.init (detected : Detected detects overlaps (events ++ [event])) :
    Detected detects overlaps events := by
  intro before range later split
  exact detected before range (later ++ [event]) (by rw [split]; simp)

theorem Detected.nil : Detected detects overlaps [] := by
  intro before range later split
  cases before <;> cases split

theorem Detected.concat (detected : Detected detects overlaps events)
    (last : ∀ range, event = .write range → ∀ reserved, heldAfter detects events = some reserved →
      overlaps range reserved → detects range reserved = true) :
    Detected detects overlaps (events ++ [event]) := by
  intro before range later split
  rcases List.eq_nil_or_concat later with rfl | ⟨earlier, final, rfl⟩
  · obtain ⟨rfl, same⟩ := List.append_inj' split rfl
    exact last range (List.singleton_inj.1 same)
  · rw [List.concat_eq_append, ← List.cons_append, ← List.append_assoc] at split
    exact detected before range earlier (List.append_inj' split rfl).1

/-- A range that is held was reserved and not written since. -/
theorem unbroken_of_held (detected : Detected detects overlaps events)
    (held : heldAfter detects events = some reserved) : Unbroken overlaps events reserved := by
  induction events using List.reverseRecOn generalizing reserved with
  | nil => cases held
  | append_singleton events event hypothesis =>
      rw [heldAfter_concat] at held
      cases event with
      | reserve range =>
          cases held
          exact .reserve events reserved
      | write range =>
          obtain ⟨holds, undetected⟩ := Option.filter_eq_some_iff.1 held
          refine (hypothesis detected.init holds).concat nofun ?_
          rintro _ ⟨⟩ overlap
          rw [detected events range [] rfl reserved holds overlap] at undetected
          cases undetected
      | update | succeed | release => cases held
      | skip =>
          exact (hypothesis detected.init held).concat nofun nofun

end MetaVm.Reservation
