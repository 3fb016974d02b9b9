import FragmentSearch.Command

namespace FragmentSearch

variable {Place : Type} {place : String → Option Place} {stored : Place → Option (List UInt8)} {beside : List Companion}

namespace World

def Apart (place : String → Option Place) (beside : List Companion) (p : Place) : Prop :=
  ∀ companion ∈ beside, place companion.path ≠ some p

def sinkOf (place : String → Option Place) : Option String → Sink Place
  | none => .standard
  | some path => (place path).elim .device .file

/-- What has become of the files `stored` once the output has taken these bytes, and nothing else has changed but the
files beside a database. -/
structure Delivered (place : String → Option Place) (beside : List Companion) (stored : Place → Option (List UInt8))
    (output : Option String) (bytes : List UInt8) (world : World Place) : Prop where
  sink : world.sink = sinkOf place output
  printed : world.printed = if output.isNone then bytes else []
  written : ∀ p, output.bind place = some p → world.files p = some bytes
  kept : ∀ p, Apart place beside p → output.bind place ≠ some p → world.files p = stored p

abbrev Untouched (place : String → Option Place) (beside : List Companion) (stored : Place → Option (List UInt8))
    (world : World Place) : Prop :=
  Delivered place beside stored none [] world

variable {world : World Place} {output : Option String} {bytes : List UInt8}

theorem untouched_iff : Untouched place beside stored world ↔
    world.sink = .standard ∧ world.printed = [] ∧ ∀ p, Apart place beside p → world.files p = stored p := by
  constructor
  · exact fun h => ⟨h.sink, h.printed, fun p apart => h.kept p apart (Option.some_ne_none p).symm⟩
  · rintro ⟨sink, printed, kept⟩
    refine ⟨sink, printed, fun p reached => ?_, fun p apart _ => kept p apart⟩
    cases reached

variable [DecidableEq Place]

theorem after_append (earlier later : List Effect) (world : World Place) :
    world.after place (earlier ++ later) = (world.after place earlier).after place later :=
  List.foldl_append

theorem after_messages (messages : List Message) (world : World Place) :
    world.after place (messages.map .message) = world := by
  induction messages with
  | nil => rfl
  | cons message messages ih => exact ih

theorem Untouched.leave {companion : Companion} (h : Untouched place beside stored world)
    (member : companion ∈ beside) : Untouched place beside stored (world.step place (.leave companion)) := by
  cases found : place companion.path with
  | none =>
    simp only [step, found]
    exact h
  | some left =>
    obtain ⟨sink, printed, kept⟩ := untouched_iff.mp h
    simp only [step, found]
    refine untouched_iff.mpr ⟨sink, printed, fun p apart => ?_⟩
    have other : p ≠ left := fun same => apart companion member (same ▸ found)
    exact (if_neg other).trans (kept p apart)

theorem Untouched.leaves {companions : List Companion} (h : Untouched place beside stored world)
    (members : ∀ companion ∈ companions, companion ∈ beside) :
    Untouched place beside stored (world.after place (companions.map .leave)) := by
  induction companions generalizing world with
  | nil => exact h
  | cons companion companions ih =>
    obtain ⟨member, members⟩ := List.forall_mem_cons.mp members
    exact ih (h.leave member) members

theorem Untouched.create (h : Untouched place beside stored world) (path : String) :
    Delivered place beside stored (some path) [] (world.step place (.create path)) := by
  obtain ⟨-, printed, kept⟩ := untouched_iff.mp h
  cases found : place path with
  | none =>
    simp only [step, found]
    refine ⟨by rw [sinkOf, found, Option.elim_none], printed, fun p reached => ?_, fun p apart _ => kept p apart⟩
    cases found.symm.trans reached
  | some created =>
    simp only [step, found]
    refine ⟨by rw [sinkOf, found, Option.elim_some], printed, fun p reached => ?_, fun p apart elsewhere => ?_⟩
    · cases found.symm.trans reached
      exact if_pos rfl
    · have other : p ≠ created := fun same => elsewhere (same ▸ found)
      exact (if_neg other).trans (kept p apart)

theorem Delivered.write (h : Delivered place beside stored output bytes world) (more : List UInt8) :
    Delivered place beside stored output (bytes ++ more) (world.step place (.write more)) := by
  obtain ⟨sink, printed, written, kept⟩ := h
  cases output with
  | none =>
    simp only [step, sink, sinkOf]
    refine ⟨rfl, congrArg (· ++ more) printed, fun p reached => ?_, kept⟩
    cases reached
  | some path =>
    cases found : place path with
    | none =>
      have device : world.sink = .device := by rw [sink, sinkOf, found, Option.elim_none]
      simp only [step, device]
      refine ⟨sink, printed, fun p reached => ?_, kept⟩
      cases found.symm.trans reached
    | some opened =>
      have file : world.sink = .file opened := by rw [sink, sinkOf, found, Option.elim_some]
      simp only [step, file]
      refine ⟨sink, printed, fun p reached => ?_, fun p apart elsewhere => ?_⟩
      · cases found.symm.trans reached
        rw [put, written opened found, Option.getD_some]
        exact if_pos rfl
      · have other : p ≠ opened := fun same => elsewhere (same ▸ found)
        exact (if_neg other).trans (kept p apart elsewhere)

end World

variable [DecidableEq Place]

namespace Work

variable {α β ε : Type} {pre : World Place → Prop} {result : α → Prop} {lapse : Failure → World Place → Prop}
  {start : World Place}

theorem run_bind (work : Work α) (next : α → Work β) (earlier : List Effect) :
    (work >>= next).run.run earlier =
      match work.run.run earlier with
      | (.ok a, effects) => (next a).run.run effects
      | (.error failure, effects) => (.error failure, effects) := by
  simp only [ExceptT.run_bind, StateT.run_bind]
  rcases work.run.run earlier with ⟨_ | _, _⟩ <;> rfl

/-- What work yields or fails for, and what has then become of the world, if `pre` holds of the world before. -/
def Ensures (place : String → Option Place) (start : World Place) (pre : World Place → Prop) (work : Work α)
    (post : α → World Place → Prop) (lapse : Failure → World Place → Prop) : Prop :=
  ∀ earlier, pre (start.after place earlier.reverse) →
    match work.run.run earlier with
    | (.ok a, effects) => post a (start.after place effects.reverse)
    | (.error failure, effects) => lapse failure (start.after place effects.reverse)

namespace Ensures

variable {post : α → World Place → Prop} {work : Work α}

theorem pure {a : α} (h : ∀ world, pre world → post a world) : Ensures place start pre (Pure.pure a) post lapse :=
  fun _ before => h _ before

theorem throw {failure : Failure} (h : ∀ world, pre world → lapse failure world) :
    Ensures place start pre (throw failure) post lapse :=
  fun _ before => h _ before

theorem perform {post : Unit → World Place → Prop} {effects : List Effect}
    (h : ∀ world, pre world → post () (world.after place effects)) :
    Ensures place start pre (perform effects) post lapse := by
  intro earlier before
  have passed := h _ before
  rwa [← World.after_append, ← List.reverse_reverse effects, ← List.reverse_append] at passed

theorem imp {mid : α → World Place → Prop} (h : Ensures place start pre work mid lapse)
    (stronger : ∀ a world, mid a world → post a world) : Ensures place start pre work post lapse := by
  intro earlier before
  have passed := h earlier before
  generalize work.run.run earlier = ended at passed ⊢
  rcases ended with ⟨failure | a, effects⟩
  · exact passed
  · exact stronger a _ passed

theorem next {mid : α → World Place → Prop} {next : α → Work β} {post : β → World Place → Prop}
    (first : Ensures place start pre work mid lapse) (second : ∀ a, Ensures place start (mid a) (next a) post lapse) :
    Ensures place start pre (work >>= next) post lapse := by
  intro earlier before
  have passed := first earlier before
  rw [run_bind]
  generalize work.run.run earlier = ended at passed ⊢
  rcases ended with ⟨failure | a, effects⟩
  · exact passed
  · exact second a effects passed

theorem bind {mid : World Place → Prop} {next : α → Work β} {post : β → World Place → Prop}
    (first : Ensures place start pre work (fun a world => result a ∧ mid world) lapse)
    (second : ∀ a, result a → Ensures place start mid (next a) post lapse) :
    Ensures place start pre (work >>= next) post lapse :=
  first.next fun a earlier before => second a before.1 earlier before.2

theorem log {events : List Event} : Ensures place start pre (log events) (fun _ => pre) lapse :=
  perform fun world before => (World.after_messages (events.map .event) world).symm ▸ before

theorem note {text : String} : Ensures place start pre (note text) (fun _ => pre) lapse :=
  perform fun world before => (World.after_messages [.note text] world).symm ▸ before

theorem info {text : String} : Ensures place start pre (info text) (fun _ => pre) lapse := log

theorem warn {text : String} : Ensures place start pre (warn text) (fun _ => pre) lapse := log

theorem orFail {failure : ε → Failure} {value : Except ε α}
    (h : ∀ e world, value = .error e → pre world → lapse (failure e) world) :
    Ensures place start pre (orFail failure value) (fun a world => value = .ok a ∧ pre world) lapse := by
  cases value with
  | ok a => exact pure fun _ before => ⟨rfl, before⟩
  | error e => exact throw fun world before => h e world rfl before

end Ensures

end Work

end FragmentSearch
