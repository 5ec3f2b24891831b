import FileSelection.Proofs.Selection.Order
import FileSelection.Run.Console

/-! A run and the order in which its files are listed. A plan reads the files only through what each
section selects and through their number, and neither changes when files with paths of their own
are listed in another order. So the run leaves the same bytes on any console, and stops at the same
place if it stops. -/

namespace FileSelection

namespace Plan

variable {files files' : List FileInfo}

theorem sectionSteps_congr {s : Section} (hselect : s.select files = s.select files')
    (hlength : files.length = files'.length) (number : ℕ) :
    sectionSteps files number s = sectionSteps files' number s := by
  unfold sectionSteps
  rw [hselect, hlength]

theorem ofReadings_congr (hselect : ∀ s : Section, s.select files = s.select files')
    (hlength : files.length = files'.length) (index : ℕ) (readings : List Reading) :
    ofReadings files index readings = ofReadings files' index readings := by
  induction readings generalizing index with
  | nil => rfl
  | cons reading readings ih =>
    unfold ofReadings
    cases reading.result with
    | error error => rfl
    | ok found =>
      cases found with
      | none => rfl
      | some s =>
        have hsteps := sectionSteps_congr (hselect s) hlength (index + 1)
        simp only [hsteps, ih]

end Plan

/-- Files with paths of their own may be listed in any order: every section selects the same files
in the same order, and a run ends in the same way with the same bytes written, whatever its
streams do with them. -/
theorem sections_of_perm {files files' : List FileInfo} (h : files.Perm files')
    (hpaths : (files.map FileInfo.path).Nodup) :
    (∀ s : Section, s.select files = s.select files') ∧
      ∀ (σ : Type) [Destination σ] (format : Format) (reader : CommandReader)
        (console : Console σ),
        Action.sections format files reader console =
          Action.sections format files' reader console := by
  have hselect : ∀ s : Section, s.select files = s.select files' :=
    Section.select_eq_of_perm h hpaths
  refine ⟨hselect, fun σ _ format reader console => ?_⟩
  have hplan : Plan.ofReader files reader = Plan.ofReader files' reader :=
    Plan.ofReadings_congr hselect h.length_eq 0 reader.readAll
  unfold Action.sections
  rw [hplan]

/-- Two files of one size, which a ranking by size tells apart by their paths only. -/
theorem sections_of_perm_tie :
    Section.select ⟨.all, .reverse (.key .size), []⟩ [⟨"b", "/d/b", 7, {}⟩, ⟨"a", "/d/a", 7, {}⟩] =
        Section.select ⟨.all, .reverse (.key .size), []⟩
          [⟨"a", "/d/a", 7, {}⟩, ⟨"b", "/d/b", 7, {}⟩] ∧
      Action.sections .human [⟨"b", "/d/b", 7, {}⟩, ⟨"a", "/d/a", 7, {}⟩]
          { input := { bytes := Text.Utf8.encode "FILTER\nall\nORDER\nsize#REVERSE\n" },
            rule := .strict } ({ out := {}, err := {} } : Console Sink) =
        Action.sections .human [⟨"a", "/d/a", 7, {}⟩, ⟨"b", "/d/b", 7, {}⟩]
          { input := { bytes := Text.Utf8.encode "FILTER\nall\nORDER\nsize#REVERSE\n" },
            rule := .strict } { out := {}, err := {} } := by
  have h := @sections_of_perm [⟨"b", "/d/b", 7, {}⟩, ⟨"a", "/d/a", 7, {}⟩] _
    (List.Perm.swap _ _ _) (by decide)
  exact ⟨h.1 _, h.2 Sink .human _ _⟩

end FileSelection
