/-
# `Proofs.Program.Diagnostic` — which warnings are kept

Warnings come one at a time and each is kept, counted or dropped as it comes.
In the end that is the same as if all of them were there from the start: of
those of an enabled kind the first are kept, up to the limit, and the rest are
counted (`reportAll_empty`).
-/
import DwarfOne.Program.Diagnostic

namespace DwarfOne

/-- Every kind is shown, and there is no limit. -/
def DiagnosticSettings.everything : DiagnosticSettings :=
  { unknownEntries := true, unknownAttributes := true, unrecognizedLocations := true
    unrecognizedLines := true, limit := none }

@[simp] theorem DiagnosticSettings.enabled_everything (kind : DiagnosticKind) :
    everything.enabled kind = true := by
  cases kind <;> rfl

namespace Diagnostics

/-- The warnings kept when some more have come. -/
def reportAll (kept : Diagnostics) (ws : List Diagnostic) : Diagnostics :=
  ws.foldl report kept

@[simp] theorem reportAll_nil (kept : Diagnostics) : kept.reportAll [] = kept :=
  rfl

theorem reportAll_append (kept : Diagnostics) (ws ws' : List Diagnostic) :
    kept.reportAll (ws ++ ws') = (kept.reportAll ws).reportAll ws' :=
  List.foldl_append

/-- Of some warnings, those of an enabled kind, kept up to the limit and counted
beyond it. -/
def throttled (settings : DiagnosticSettings) (events : List Diagnostic) : Diagnostics :=
  let wanted := events.filter (settings.enabled ·.kind)
  let shown := match settings.limit with
    | some limit => wanted.take limit
    | none => wanted
  { settings, reported := shown.toArray, suppressed := wanted.length - shown.length }

/-- One more warning. -/
theorem report_throttled (settings : DiagnosticSettings) (events : List Diagnostic)
    (new : Diagnostic) :
    (throttled settings events).report new = throttled settings (events ++ [new]) := by
  cases henabled : settings.enabled new.kind with
  | false => simp [report, throttled, henabled]
  | true =>
      obtain ⟨wanted, hwanted⟩ : ∃ wanted, wanted = events.filter (settings.enabled ·.kind) :=
        ⟨_, rfl⟩
      have hmore : (events ++ [new]).filter (settings.enabled ·.kind) = wanted ++ [new] := by
        simp [hwanted, henabled]
      cases hlimit : settings.limit with
      | none => simp [report, throttled, full, henabled, hlimit]
      | some limit =>
          simp only [report, throttled, full, henabled, hlimit, hmore, ← hwanted]
          by_cases hfull : limit ≤ wanted.length
          · simp [hfull, List.take_append_of_le_length]
            omega
          · have hroom : wanted.length ≤ limit := by omega
            have hnext : wanted.length + 1 ≤ limit := by omega
            simp [hfull, List.take_of_length_le, hroom, hnext]

theorem reportAll_throttled (settings : DiagnosticSettings) :
    ∀ ws events : List Diagnostic,
      (throttled settings events).reportAll ws = throttled settings (events ++ ws)
  | [], events => by simp
  | w :: ws, events => by
      rw [← List.singleton_append, reportAll_append, ← List.append_assoc,
        ← reportAll_throttled settings ws, ← report_throttled]
      rfl

theorem throttled_nil (settings : DiagnosticSettings) : throttled settings [] = empty settings := by
  cases hlimit : settings.limit <;> simp [throttled, empty, hlimit]

/-- What is kept of all the warnings that come. -/
theorem reportAll_empty (settings : DiagnosticSettings) (ws : List Diagnostic) :
    (empty settings).reportAll ws = throttled settings ws := by
  rw [← throttled_nil, reportAll_throttled, List.nil_append]

theorem reported_throttled_everything (ws : List Diagnostic) :
    (throttled .everything ws).reported.toList = ws := by
  have hlimit : DiagnosticSettings.everything.limit = none := rfl
  simp [throttled, hlimit]

/-- Where everything is shown, nothing that comes is lost. -/
theorem reported_reportAll_everything (ws : List Diagnostic) :
    ((empty .everything).reportAll ws).reported.toList = ws := by
  rw [reportAll_empty, reported_throttled_everything]

end Diagnostics
end DwarfOne
