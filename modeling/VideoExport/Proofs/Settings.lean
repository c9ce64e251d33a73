import VideoExport.Settings.Sanitize

/-!
# Settings that are sanitized again

The record of settings gives every field a value (`Record.value?_draft`), and as its texts are texts
already, sanitizing it is never refused (`Settings.sanitize_record`).
-/

set_option autoImplicit false

namespace VideoExport

theorem Record.value?_draft (r : Record) (f : Field) : r.draft.value? f = some (r f) := by
  cases f <;> rfl

/-- Settings are never refused when they are sanitized again. -/
theorem Settings.sanitize_record (s : Settings) (hasImage : Bool) :
    ∃ s', sanitize (.record s.record) hasImage = .ok s' := by
  have content : s.record.draft.text .textContent "" = .ok s.text.content := by
    unfold Draft.text
    rw [Record.value?_draft]
    rfl
  have family : s.record.draft.text .textFontFamily "Arial" = .ok s.text.fontFamily := by
    unfold Draft.text
    rw [Record.value?_draft]
    rfl
  unfold sanitize ofDraft Raw.draft
  simp only [content, family]
  exact ⟨_, rfl⟩

end VideoExport
