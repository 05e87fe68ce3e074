import ClasspathSymbols.Proofs.Files.Names
import ClasspathSymbols.Session

/-! # Runs of sessions

Running a row of steps is running its parts one after another, so the answer of a step is the
answer it gives in the session that the steps before it leave. Whatever a session does, its files
stay sound. -/
namespace ClasspathSymbols.Session

def after (s : Session) (steps : List Step) : Session := (runAll [] s steps).2

theorem runAll_append (held : List String) (s : Session) (first rest : List Step) :
    runAll held s (first ++ rest) =
      ((runAll held s first).1 ++ (runAll held (runAll held s first).2 rest).1,
        (runAll held (runAll held s first).2 rest).2) := by
  induction first generalizing s with
  | nil => simp [runAll]
  | cons t first ih => simp [runAll, ih]

theorem answers_length (held : List String) (s : Session) (steps : List Step) :
    (runAll held s steps).1.length = steps.length := by
  induction steps generalizing s with
  | nil => simp [runAll]
  | cons t steps ih => simp [runAll, ih]

theorem after_snoc (s : Session) (steps : List Step) (t : Step) :
    s.after (steps ++ [t]) = (run [] (s.after steps) t).2 := by
  simp [after, runAll_append, runAll]

theorem answer_at (s : Session) (before rest : List Step) (t : Step) :
    (runAll [] s (before ++ t :: rest)).1[before.length]? =
      some ((run [] (s.after before) t).1, (run [] (s.after before) t).2.cache.counts) := by
  rw [runAll_append, List.getElem?_append_right (Nat.le_of_eq (answers_length ..))]
  simp [answers_length, runAll, after]

mutual

theorem sound_run (held : List String) (s : Session) (t : Step) (h : s.host.files.Sound) :
    (run held s t).2.host.files.Sound := by
  cases t with
  | write file content => exact Files.sound_write h (Files.isName_locate h file) content
  | delete file =>
    simp only [run, delete]
    split
    · exact Files.sound_remove h _
    · exact h
  | guestFiles p extensions =>
    simp only [run, guestFiles]
    split <;> exact h
  | nested p steps =>
    simp only [run]
    split
    · exact h
    · exact sound_runAll (p :: held) _ steps h
  | _ => exact h

theorem sound_runAll (held : List String) (s : Session) (steps : List Step)
    (h : s.host.files.Sound) : (runAll held s steps).2.host.files.Sound := by
  cases steps with
  | nil => exact h
  | cons t steps => exact sound_runAll held _ steps (sound_run held s t h)

end

end ClasspathSymbols.Session
