import Ubershader.Program.Rules
import Ubershader.Proofs.Space.Declarations
import Ubershader.Proofs.Space.Orbit

/-!
# Where replacement ends

`canonicalize` counts its steps. The loop that it stands for does not: it replaces what is in a
buffer until no rule applies, or until it meets a mutation again. `Space.Loop` is that loop. It
ends from every mutation that has one value per mutator, legal or not, and always with the outcome
of `canonicalize`.

How it ends depends on the path of replacement alone. If the path comes to a mutation that no rule
applies to, that one is the result, and it differs from the start as soon as one rule has been
applied, because nothing is met twice. Otherwise the buffer is left at the first mutation that is
met again, which lies on a circle.
-/

namespace Ubershader

/-- What the loop returns: whether anything was changed, or the mutation that was met again. -/
def Canonical.result : Canonical → Except Mutation Bool
  | settled changed _ => .ok changed
  | cycle repeated => .error repeated

theorem Canonical.eq_of_result_of_last {canonical other : Canonical}
    (hresult : canonical.result = other.result) (hlast : canonical.last = other.last) :
    canonical = other := by
  cases canonical with
  | settled changed result =>
    cases other with
    | settled otherChanged otherResult =>
      cases hresult
      cases hlast
      rfl
    | cycle repeated => cases hresult
  | cycle repeated =>
    cases other with
    | settled changed result => cases hresult
    | cycle otherRepeated =>
      cases hresult
      rfl

namespace Space

variable {space : Space} {start mutation next : Mutation} {met : Std.TreeSet Mutation}
variable {changed : Bool} {result : Except Mutation Bool} {final : Mutation}

/-- Replacement leads from one mutation to another, in at least one step. -/
def ReachesOnward (space : Space) : Mutation → Mutation → Prop :=
  Relation.TransGen fun mutation next => space.replaceOnce? mutation = some next

/-- Replace what is in a buffer until no rule applies, or until a mutation is there that was met
before. The last two arguments are what is returned and what is left in the buffer. -/
inductive Loop (space : Space) :
    Std.TreeSet Mutation → Bool → Mutation → Except Mutation Bool → Mutation → Prop
  | stop {met : Std.TreeSet Mutation} {changed : Bool} {buffer : Mutation}
      (hstops : space.replaceOnce? buffer = none) :
      Loop space met changed buffer (.ok changed) buffer
  | back {met : Std.TreeSet Mutation} {changed : Bool} {buffer next : Mutation}
      (hnext : space.replaceOnce? buffer = some next) (hmet : next ∈ met) :
      Loop space met changed buffer (.error next) next
  | go {met : Std.TreeSet Mutation} {changed : Bool} {buffer next final : Mutation}
      {result : Except Mutation Bool} (hnext : space.replaceOnce? buffer = some next)
      (hnew : next ∉ met) (hrest : Loop space (met.insert next) true next result final) :
      Loop space met changed buffer result final

theorem Loop.unique (hloop : space.Loop met changed mutation result final)
    {otherResult : Except Mutation Bool} {otherFinal : Mutation}
    (hother : space.Loop met changed mutation otherResult otherFinal) :
    result = otherResult ∧ final = otherFinal := by
  induction hloop with
  | stop hstops =>
    cases hother with
    | stop => exact ⟨rfl, rfl⟩
    | back hnext => cases hstops.symm.trans hnext
    | go hnext => cases hstops.symm.trans hnext
  | back hnext hmet =>
    cases hother with
    | stop hstops => cases hstops.symm.trans hnext
    | back hagain =>
      cases hnext.symm.trans hagain
      exact ⟨rfl, rfl⟩
    | go hagain hnew =>
      cases hnext.symm.trans hagain
      exact absurd hmet hnew
  | go hnext hnew _ ih =>
    cases hother with
    | stop hstops => cases hstops.symm.trans hnext
    | back hagain hmet =>
      cases hnext.symm.trans hagain
      exact absurd hmet hnew
    | go hagain _ hrest =>
      cases hnext.symm.trans hagain
      exact ih hrest

/-! ## The bound is never met -/

theorem loop_settle (hspace : space.WellFormed) (hstart : start.length = space.mutators.length)
    {steps : Nat} {trail : List Mutation} (htrail : Trail space start mutation trail)
    (hmet : ∀ other, other ∈ met ↔ other ∈ trail)
    (hsteps : space.replacementBound < steps + trail.length) :
    space.Loop met changed mutation (space.settle steps met changed mutation).result
      (space.settle steps met changed mutation).last := by
  induction steps generalizing met changed mutation trail with
  | zero =>
    have hbound := length_le_replacementBound hspace hstart htrail.nodup htrail.reaches
    omega
  | succ steps ih =>
    rw [settle]
    cases hnext : space.replaceOnce? mutation with
    | none => exact .stop hnext
    | some next =>
      by_cases hback : next ∈ met
      · simp only [hback, if_true]
        exact .back hnext hback
      · simp only [hback, if_false]
        have hnew : next ∉ trail := fun hold => hback ((hmet next).mpr hold)
        refine .go hnext hback (ih (htrail.extend hnext hnew) ?_ ?_)
        · intro other
          rw [mem_insert_iff, hmet, List.mem_cons]
        · rw [List.length_cons]
          omega

theorem mem_insert_empty_iff {other : Mutation} :
    other ∈ (Std.TreeSet.empty.insert start : Std.TreeSet Mutation) ↔ other ∈ [start] := by
  rw [mem_insert_iff, List.mem_singleton]
  simp

/-- The loop ends, and its outcome is that of canonicalizing. -/
theorem loop_iff_canonicalize (hspace : space.WellFormed)
    (hstart : start.length = space.mutators.length) :
    space.Loop (Std.TreeSet.empty.insert start) false start result final ↔
      result = (space.canonicalize start).result ∧ final = (space.canonicalize start).last := by
  have hloop : space.Loop (Std.TreeSet.empty.insert start) false start
      (space.canonicalize start).result (space.canonicalize start).last :=
    loop_settle hspace hstart (Trail.singleton space start) (fun _ => mem_insert_empty_iff)
      (by simp)
  constructor
  · intro hother
    exact hother.unique hloop
  · rintro ⟨rfl, rfl⟩
    exact hloop

/-! ## How the loop ends -/

/-- What is true of the outcome of the loop. -/
def EndsWith (space : Space) (start : Mutation) : Except Mutation Bool → Mutation → Prop
  | .ok changed, final => space.Reaches start final ∧ space.replaceOnce? final = none ∧
      (changed = true ↔ final ≠ start)
  | .error repeated, final => final = repeated ∧ space.ReachesOnward start repeated ∧
      space.ReachesOnward repeated repeated ∧
      ∀ other, space.Reaches start other → (space.replaceOnce? other).isSome = true

theorem Loop.endsWith (hloop : space.Loop met changed mutation result final)
    {trail : List Mutation} (htrail : Trail space start mutation trail)
    (hleads : ∀ other ∈ trail, space.Reaches other mutation)
    (hmet : ∀ other, other ∈ met ↔ other ∈ trail) (hchanged : changed = true ↔ mutation ≠ start) :
    space.EndsWith start result final := by
  induction hloop generalizing trail with
  | stop hstops => exact ⟨htrail.reaches _ htrail.last, hstops, hchanged⟩
  | @back _ _ buffer next hnext hback =>
    have hmem : next ∈ trail := (hmet next).mp hback
    refine ⟨rfl, ?_, ?_, fun other => htrail.isSome_of_reaches hnext hmem⟩
    · exact Relation.TransGen.tail' (htrail.reaches buffer htrail.last) hnext
    · exact Relation.TransGen.tail' (hleads next hmem) hnext
  | @go _ _ buffer next _ _ hnext hnew _ ih =>
    have hfresh : next ∉ trail := fun hold => hnew ((hmet next).mpr hold)
    refine ih (htrail.extend hnext hfresh) ?_ ?_ ?_
    · refine List.forall_mem_cons.mpr ⟨Relation.ReflTransGen.refl, ?_⟩
      intro other hother
      exact (hleads other hother).tail hnext
    · intro other
      rw [mem_insert_iff, hmet, List.mem_cons]
    · -- The start has been met, so what is new is not the start.
      have hne : next ≠ start := fun heq => hfresh (heq ▸ htrail.first)
      simpa using hne

theorem endsWith_canonicalize (hspace : space.WellFormed)
    (hstart : start.length = space.mutators.length) :
    space.EndsWith start (space.canonicalize start).result (space.canonicalize start).last := by
  have hloop := (loop_iff_canonicalize hspace hstart).mpr ⟨rfl, rfl⟩
  refine hloop.endsWith (Trail.singleton space start) ?_ (fun _ => mem_insert_empty_iff) (by simp)
  intro other hother
  rw [List.mem_singleton.mp hother]
  exact Relation.ReflTransGen.refl

/-- What is true of repeated replacement from a mutation: it has come to one that no rule applies
to, or rules apply to all that it can reach. -/
def Ends (space : Space) (start : Mutation) : Canonical → Prop
  | .settled _ result => space.Reaches start result ∧ space.replaceOnce? result = none
  | .cycle _ => ∀ other, space.Reaches start other → (space.replaceOnce? other).isSome = true

/-- Canonicalizing decides how repeated replacement ends. -/
theorem ends_canonicalize (hspace : space.WellFormed)
    (hstart : start.length = space.mutators.length) :
    space.Ends start (space.canonicalize start) := by
  have hends := endsWith_canonicalize hspace hstart
  cases hcanonical : space.canonicalize start with
  | settled changed result =>
    rw [hcanonical] at hends
    exact ⟨hends.1, hends.2.1⟩
  | cycle repeated =>
    rw [hcanonical] at hends
    exact hends.2.2.2

/-- A path ends in one place only. -/
theorem Reaches.eq_of_stops {other : Mutation} (hmutation : space.Reaches start mutation)
    (hstops : space.replaceOnce? mutation = none) (hother : space.Reaches start other)
    (hotherStops : space.replaceOnce? other = none) : mutation = other := by
  have hstay : ∀ {a b : Mutation}, space.replaceOnce? a = none → space.Reaches a b → a = b := by
    intro a b hnone hreaches
    obtain rfl | ⟨next, hnext, -⟩ := Relation.ReflTransGen.cases_head hreaches
    · rfl
    · cases hnone.symm.trans hnext
  have hunique : Relator.RightUnique fun mutation next : Mutation =>
      space.replaceOnce? mutation = some next :=
    fun _ _ _ hfirst hsecond => Option.some.inj (hfirst.symm.trans hsecond)
  obtain honward | honward := Relation.ReflTransGen.total_of_right_unique hunique hmutation hother
  · exact hstay hstops honward
  · exact (hstay hotherStops honward).symm

theorem Reaches.of_onward (honward : space.ReachesOnward start mutation) :
    space.Reaches start mutation :=
  Relation.TransGen.to_reflTransGen honward

/-- Canonicalizing a mutation decides how repeated replacement ends. The loop is a relation here,
which is not bounded by a number of steps, so that it ends is a part of what is said. -/
structure Canonicalizes (space : Space) (mutation : Mutation) : Prop where
  /-- Asking a program with this space is not a misuse. -/
  answers : ∀ program : Program, program.space = space →
    program.canonicalize mutation = .ok (space.canonicalize mutation)
  /-- No rule looks past the end of the mutation. -/
  places : ∀ rule ∈ space.replacements, ∀ change ∈ rule.changes, change.index < mutation.length
  /-- The loop ends, and in one way only. -/
  loop_iff : ∀ result final,
    space.Loop (Std.TreeSet.empty.insert mutation) false mutation result final ↔
      result = (space.canonicalize mutation).result ∧ final = (space.canonicalize mutation).last
  /-- There is a result exactly if the path of replacement has an end, and it is that end. -/
  settled_iff : ∀ result, (∃ changed, space.canonicalize mutation = .settled changed result) ↔
    space.Reaches mutation result ∧ space.replaceOnce? result = none
  /-- The flag says whether the result is another mutation, and the result is canonical. -/
  settled : ∀ changed result, space.canonicalize mutation = .settled changed result →
    (changed = true ↔ result ≠ mutation) ∧ space.canonicalize result = .settled false result
  /-- Otherwise the buffer is left on a circle, and its content is reported. -/
  cycle : ∀ repeated, space.canonicalize mutation = .cycle repeated →
    (space.canonicalize mutation).last = repeated ∧ space.ReachesOnward mutation repeated ∧
      space.ReachesOnward repeated repeated
  valid : space.isValid mutation = true →
    space.isValid (space.canonicalize mutation).last = true

theorem reaches_last_canonicalize (hspace : space.WellFormed)
    (hstart : start.length = space.mutators.length) :
    space.Reaches start (space.canonicalize start).last := by
  have hends := endsWith_canonicalize hspace hstart
  cases hcanonical : space.canonicalize start with
  | settled changed result =>
    rw [hcanonical] at hends
    exact hends.1
  | cycle repeated =>
    rw [hcanonical] at hends
    exact .of_onward hends.2.1

/-- A path with an end is followed to its end. -/
theorem settled_iff_reaches (hspace : space.WellFormed)
    (hstart : start.length = space.mutators.length) {stopped : Mutation} :
    (∃ changed, space.canonicalize start = .settled changed stopped) ↔
      space.Reaches start stopped ∧ space.replaceOnce? stopped = none := by
  have hends := endsWith_canonicalize hspace hstart
  constructor
  · rintro ⟨changed, hcanonical⟩
    rw [hcanonical] at hends
    exact ⟨hends.1, hends.2.1⟩
  · rintro ⟨hreaches, hstops⟩
    cases hcanonical : space.canonicalize start with
    | settled changed result =>
      rw [hcanonical] at hends
      have hsame : result = stopped := hends.1.eq_of_stops hends.2.1 hreaches hstops
      exact ⟨changed, by rw [hsame]⟩
    | cycle repeated =>
      rw [hcanonical] at hends
      have hsome := hends.2.2.2 stopped hreaches
      rw [hstops] at hsome
      cases hsome

/-- A mutation that no rule applies to stands for itself. -/
theorem canonicalize_of_stops (hspace : space.WellFormed)
    (hstart : start.length = space.mutators.length) (hstops : space.replaceOnce? start = none) :
    space.canonicalize start = .settled false start := by
  obtain ⟨hresult, hlast⟩ := (loop_iff_canonicalize hspace hstart).mp (.stop hstops)
  exact Canonical.eq_of_result_of_last hresult.symm hlast.symm

end Space

/-- Canonicalizing is exact in every space that was made by declarations and for every mutation
that has one value per mutator: it ends, it finds the end of the path of replacement whenever there
is one, and it reports a mutation on a circle otherwise. -/
theorem canonicalizes_of_declareAll {declarations : List Declaration} {space : Space}
    (hdeclared : ({} : Space).declareAll declarations = .ok space) {mutation : Mutation}
    (hlength : mutation.length = space.mutators.length) : space.Canonicalizes mutation := by
  have hspace : space.WellFormed := Space.wellFormed_empty.declareAll hdeclared
  have hends := Space.endsWith_canonicalize hspace hlength
  refine ⟨?_, ?_, fun _ _ => Space.loop_iff_canonicalize hspace hlength,
    fun _ => Space.settled_iff_reaches hspace hlength, ?_, ?_, ?_⟩
  · rintro program rfl
    exact if_pos hlength
  · intro rule hrule change hchange
    rw [hlength]
    exact ((hspace.replacements rule hrule).before change hchange).lt
  · intro changed result hcanonical
    rw [hcanonical] at hends
    obtain ⟨hreaches, hstops, hchanged⟩ := hends
    have hresult := hreaches.length_eq.trans hlength
    exact ⟨hchanged, Space.canonicalize_of_stops hspace hresult hstops⟩
  · intro repeated hcanonical
    rw [hcanonical] at hends ⊢
    exact ⟨rfl, hends.2.1, hends.2.2.1⟩
  · intro hvalid
    exact (Space.reaches_last_canonicalize hspace hlength).isValid hspace hvalid

/-- Rules that lead into a circle from outside of it, and a rule that applies once. -/
def circleWithTail : List Declaration :=
  [.mutator ["A", "0", "1", "2", "3"], .mutator ["B", "0", "1"],
   .replacement ["A", "0", "to", "A", "1"], .replacement ["A", "1", "to", "A", "2"],
   .replacement ["A", "2", "to", "A", "1"],
   .replacement ["B", "1", "A", "3", "to", "A", "3", "B", "0"]]

/-- The second value of the first mutation is not legal. -/
theorem canonicalizes_circleWithTail :
    ∃ space, ({} : Space).declareAll circleWithTail = .ok space ∧
      space.canonicalize [0, 9] = .cycle [1, 9] ∧ space.Canonicalizes [0, 9] ∧
      space.canonicalize [3, 1] = .settled true [3, 0] ∧ space.Canonicalizes [3, 1] := by
  have hcheck : (({} : Space).declareAll circleWithTail).toOption.any (fun space =>
      decide (space.mutators.length = 2 ∧ space.canonicalize [0, 9] = .cycle [1, 9] ∧
        space.canonicalize [3, 1] = .settled true [3, 0])) = true := by
    decide +kernel
  obtain ⟨space, hspace, hfacts⟩ := (Option.any_eq_true ..).mp hcheck
  obtain ⟨hmutators, hcycle, hsettled⟩ := of_decide_eq_true hfacts
  have hdeclared := eq_ok_of_toOption hspace
  exact ⟨space, hdeclared, hcycle, canonicalizes_of_declareAll hdeclared hmutators.symm,
    hsettled, canonicalizes_of_declareAll hdeclared hmutators.symm⟩

end Ubershader
