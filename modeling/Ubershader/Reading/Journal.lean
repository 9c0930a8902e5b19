import Ubershader.Reading.Report
import Ubershader.Reading.Respect

/-!
# The journal and the draft

The journal leaves out nothing: at every moment of a reading the draft is what the edits in the
journal add up to. A question about where a line has gone is therefore a question about a list of
edits.
-/

namespace Ubershader

namespace Session

variable {σ κ : Type}

def edits (session : Session σ κ) : List Edit :=
  session.journal.toList.filterMap Event.edit?

/-- The journal of a session goes on from that of an earlier one, and so does its draft. -/
def Continues (earlier later : Session σ κ) : Prop :=
  ∃ more, later.edits = earlier.edits ++ more ∧ later.draft = earlier.draft.applyAll more

theorem continues_of_edits_eq {earlier later : Session σ κ} (hedits : later.edits = earlier.edits)
    (hdraft : later.draft = earlier.draft) : Continues earlier later :=
  ⟨[], by simpa using hedits, hdraft⟩

theorem edits_performAll (edits : List Edit) (session : Session σ κ) :
    ((Walk.performAll edits).endSession session).edits = session.edits ++ edits := by
  have hedits : (edits.map (Event.edit (κ := κ))).filterMap Event.edit? = edits := by
    simp [List.filterMap_map, Function.comp_def, Event.edit?]
  simp only [Session.edits, Walk.endSession_performAll, Array.toList_append, List.filterMap_append,
    hedits]

theorem continues_performAll (edits : List Edit) (session : Session σ κ) :
    Continues session ((Walk.performAll edits).endSession session) :=
  ⟨edits, edits_performAll edits session, by simp⟩

theorem stepRelation_continues (settings : Settings) (provider : Provider σ κ) :
    StepRelation settings provider Continues where
  refl session := continues_of_edits_eq rfl rfl
  trans := by
    rintro first second third ⟨front, hfront, hfirst⟩ ⟨back, hback, hsecond⟩
    exact ⟨front ++ back, by simp [hback, hfront], by simp [hsecond, hfirst]⟩
  record event _ hedit session := continues_of_edits_eq (by simp [edits, hedit]) rfl
  append line session := continues_performAll [.append line] session
  guard path session := continues_performAll _ session
  command session _ _ edits _ _ := continues_performAll edits session
  resolve path context session :=
    continues_of_edits_eq (by simp [Walk.resolve, edits, Event.edit?]) (by simp [Walk.resolve])
  fetch path depth session :=
    continues_of_edits_eq (by simp [Walk.fetch, edits, Event.edit?]) (by simp [Walk.fetch])

end Session

section

variable {σ κ : Type} (settings : Settings) (provider : Provider σ κ) (entry : String)
  (context : κ) (world : σ)

/-- The session of a reading is the one at the end of its walk, with or without a fault. -/
theorem session_read : (read settings provider entry context world).session =
    (Walk.visit settings provider (settings.maxIncludeDepth.toNat + 1) ⟨entry, 0, ""⟩ entry
      context).endSession { world := world } := by
  simp only [read, Walk.endSession]
  split <;> simp_all

/-- The draft at the end of a reading is what the edits in its journal add up to. -/
theorem draft_eq_applyAll_edits :
    (read settings provider entry context world).session.draft =
      ({} : Draft).applyAll (read settings provider entry context world).session.edits := by
  have hwalk := (Session.stepRelation_continues settings provider).respects_visit
    (settings.maxIncludeDepth.toNat + 1) ⟨entry, 0, ""⟩ entry context { world := world }
  obtain ⟨edits, hedits, hdraft⟩ := hwalk
  rw [session_read, hdraft, hedits]
  rfl

end

end Ubershader
