import Mathlib.Data.List.Nodup
import Wiretap.Scenario.Kinds
import Wiretap.Scope.Program

/-!
# Scopes are taken back

A guard remembers one context, the one that it replaced, and not what has been installed since. In
a program that installs scopes for the duration of a body only, this suffices: at every moment the
ambient context is what the bodies around it have made it, and behind each body it is what it was,
also when a failure has left the body. Guards that are kept under a name can be released in any
order. Then the last one decides: it restores what was ambient when it was installed, whatever the
others have restored before.
-/

namespace Wiretap.Scope

section

variable {K : Kinds} {d e : Desk} {s : Installer} {c : Context} {g : KeptGuard} {name : String}
  {step : Step} {steps rest body : List Step}

/-- What `c` shows inside the body for which it is installed, with this context ambient outside. -/
def shown : Scope → Context → Context → Context
  | .all, c, _ => c
  | .keys listed, c, _ => c.restrict listed
  | .inert, _, outside => outside

/-! ## Desks -/

/-- Does the release of the guard leave the ambient context alone? -/
def KeptGuard.isIdle : KeptGuard → Bool
  | .restoring guard _ => guard.previous.isNone
  | .noting _ => true

namespace Desk

/-- The desk with which the body of an installation begins. -/
def enter (d : Desk) (s : Installer) (c : Context) : Desk := (d.install s c).1.note "in"

/-- The first guard that is kept under a name. -/
def held? (d : Desk) (name : String) : Option KeptGuard :=
  (d.kept.find? (·.1 == name)).map (·.2)

/-- No guard that is kept can change the ambient context. -/
def KeepsIdle (d : Desk) : Prop := ∀ entry ∈ d.kept, entry.2.isIdle = true

@[simp] theorem ambient_note (word : String) : (d.note word).ambient = d.ambient := rfl

@[simp] theorem kept_note (word : String) : (d.note word).kept = d.kept := rfl

@[simp] theorem ambient_keep : (d.keep name g).ambient = d.ambient := rfl

@[simp] theorem kept_keep : (d.keep name g).kept = d.kept ++ [(name, g)] := rfl

@[simp] theorem ambient_install : (d.install s c).1.ambient = s.scope.shown c d.ambient := by
  cases hscope : s.scope <;> by_cases hannounces : s.announces = true <;>
    simp [Desk.install, Scope.install, derive?, shown, hscope, hannounces]

@[simp] theorem kept_install : (d.install s c).1.kept = d.kept := by
  by_cases hannounces : s.announces = true <;> simp [Desk.install, hannounces]

@[simp] theorem kept_release : (d.release g).kept = d.kept := by
  cases g with
  | restoring guard announces => cases announces <;> rfl
  | noting name => rfl

theorem ambient_release_restoring (guard : Guard) (announces : Bool) :
    (d.release (.restoring guard announces)).ambient = guard.release d.ambient := by
  cases announces <;> rfl

theorem ambient_release_of_isIdle (h : g.isIdle = true) :
    (d.release g).ambient = d.ambient := by
  cases g with
  | restoring guard announces =>
      rw [ambient_release_restoring, Guard.release, Option.isNone_iff_eq_none.mp h]
      rfl
  | noting name => rfl

theorem isIdle_install (h : s.scope = .inert) : (d.install s c).2.isIdle = true := by
  simp [Desk.install, Scope.install, derive?, h, Guard.idle, KeptGuard.isIdle]

/-- The guard of an installation gives back what was ambient before, whatever is ambient now. -/
theorem ambient_release_install (h : s.scope ≠ .inert) :
    (e.release (d.install s c).2).ambient = d.ambient := by
  cases hscope : s.scope with
  | inert => exact absurd hscope h
  | all =>
      simp [Desk.install, Scope.install, derive?, hscope, ambient_release_restoring, Guard.release]
  | keys listed =>
      simp [Desk.install, Scope.install, derive?, hscope, ambient_release_restoring, Guard.release]

/-- Where the ambient context is still what the installation has made it, every guard gives back
what was ambient before. -/
theorem ambient_release_of_shown (h : e.ambient = s.scope.shown c d.ambient) :
    (e.release (d.install s c).2).ambient = d.ambient := by
  by_cases hscope : s.scope = .inert
  · rw [ambient_release_of_isIdle (isIdle_install hscope), h, hscope]
    rfl
  · exact ambient_release_install hscope

@[simp] theorem ambient_enter : (d.enter s c).ambient = s.scope.shown c d.ambient := by
  simp [enter]

@[simp] theorem kept_enter : (d.enter s c).kept = d.kept := by simp [enter]

/-- Dropping a name releases the guard that is held under it. -/
theorem ambient_dropFirst :
    (d.dropFirst name).ambient = match d.held? name with
      | some g => (d.release g).ambient
      | none => d.ambient := by
  unfold dropFirst held?
  cases hfound : d.kept.find? (·.1 == name) with
  | none => rfl
  | some entry =>
      obtain ⟨_, g⟩ := entry
      cases g with
      | restoring guard announces =>
          simp only [Option.map_some]
          rw [ambient_release_restoring, ambient_release_restoring]
      | noting _ => rfl

theorem kept_dropFirst : (d.dropFirst name).kept = d.kept.eraseP (·.1 == name) := by
  unfold dropFirst
  cases hfound : d.kept.find? (·.1 == name) with
  | none =>
      refine (List.eraseP_of_forall_not fun entry hentry => ?_).symm
      exact List.find?_eq_none.mp hfound entry hentry
  | some entry => simp

theorem isIdle_of_held? (h : d.KeepsIdle) (hheld : d.held? name = some g) : g.isIdle = true := by
  obtain ⟨entry, hfound, rfl⟩ := Option.map_eq_some_iff.mp hheld
  exact h entry (List.mem_of_find?_eq_some hfound)

theorem KeepsIdle.of_kept (h : d.KeepsIdle) (hkept : e.kept = d.kept) : e.KeepsIdle := by
  rw [KeepsIdle, hkept]
  exact h

theorem KeepsIdle.keep (h : d.KeepsIdle) (hg : g.isIdle = true) : (d.keep name g).KeepsIdle := by
  intro entry hentry
  rcases List.mem_append.mp hentry with hold | hnew
  · exact h entry hold
  · rw [List.mem_singleton.mp hnew]
    exact hg

theorem KeepsIdle.dropFirst (h : d.KeepsIdle) : (d.dropFirst name).KeepsIdle := by
  intro entry hentry
  rw [kept_dropFirst] at hentry
  exact h entry (List.mem_of_mem_eraseP hentry)

/-- Dropping a name changes nothing ambient where only idle guards are kept. -/
theorem KeepsIdle.ambient_dropFirst (h : d.KeepsIdle) :
    (d.dropFirst name).ambient = d.ambient := by
  rw [Desk.ambient_dropFirst]
  split
  next g hheld => exact ambient_release_of_isIdle (isIdle_of_held? h hheld)
  next => rfl

theorem KeepsIdle.ambient_releaseAll (h : d.KeepsIdle) : d.releaseAll.ambient = d.ambient := by
  have hfold : ∀ (entries : List (String × KeptGuard)) (e : Desk),
      (∀ entry ∈ entries, entry.2.isIdle = true) →
      (entries.foldl (fun d entry => d.release entry.2) e).ambient = e.ambient := by
    intro entries
    induction entries with
    | nil => exact fun _ _ => rfl
    | cons entry entries ih =>
        intro e hidle
        rw [List.foldl_cons, ih _ fun other hother => hidle other (List.mem_cons_of_mem _ hother)]
        exact ambient_release_of_isIdle (hidle entry List.mem_cons_self)
  exact hfold d.kept _ h

end Desk

/-! ## Steps at any depth -/

mutual

/-- Is this so for the step and every step in its bodies? -/
def Step.every (p : Step → Bool) : Step → Bool
  | .within s c body => p (.within s c body) && Step.everyOf p body
  | .catching body => p (.catching body) && Step.everyOf p body
  | step => p step

/-- Is this so for every step and every step in their bodies? -/
def Step.everyOf (p : Step → Bool) : List Step → Bool
  | [] => true
  | step :: rest => step.every p && Step.everyOf p rest

end

/-- Does the step keep no guard with something to restore? What it installs, it installs for the
duration of a body. -/
def Step.isLexical : Step → Bool
  | .install s _ _ => decide (s.scope = .inert)
  | _ => true

/-- Does the step leave the guard of this name where it is? -/
def Step.spares (name : String) : Step → Bool
  | .drop other => other != name
  | _ => true

/-- The step that keeps the guard of an installation under a name. -/
def Step.keeping (kept : Installer × Context × String) : Step :=
  .install kept.1 kept.2.1 kept.2.2

theorem Step.run_within :
    Step.run d (.within s c body) =
      match (Step.runAll (d.enter s c) body).2 with
      | none => (((Step.runAll (d.enter s c) body).1.release (d.install s c).2).note "within", none)
      | some message => ((Step.runAll (d.enter s c) body).1.release (d.install s c).2,
          some message) := by
  rw [Step.run]
  rfl

theorem Step.ambient_run_within :
    (Step.run d (.within s c body)).1.ambient =
      ((Step.runAll (d.enter s c) body).1.release (d.install s c).2).ambient := by
  rw [Step.run_within]
  split <;> rfl

theorem Step.kept_run_within :
    (Step.run d (.within s c body)).1.kept = (Step.runAll (d.enter s c) body).1.kept := by
  rw [Step.run_within]
  split <;> simp

theorem Step.ambient_run_catching :
    (Step.run d (.catching body)).1.ambient = (Step.runAll d body).1.ambient := by
  rw [Step.run]
  dsimp only
  split <;> rfl

theorem Step.kept_run_catching :
    (Step.run d (.catching body)).1.kept = (Step.runAll d body).1.kept := by
  rw [Step.run]
  dsimp only
  split <;> rfl

theorem Step.runAll_cons :
    Step.runAll d (step :: rest) =
      match (Step.run d step).2 with
      | none => Step.runAll (Step.run d step).1 rest
      | some message => ((Step.run d step).1, some message) := by
  rw [Step.runAll]
  rcases Step.run d step with ⟨e, _ | message⟩ <;> rfl

/-- Behind steps that have ended normally, the others go on from where these have come. -/
theorem Step.runAll_append (h : (Step.runAll d steps).2 = none) :
    Step.runAll d (steps ++ rest) = Step.runAll (Step.runAll d steps).1 rest := by
  induction steps generalizing d with
  | nil => rfl
  | cons step steps ih =>
      rw [Step.runAll_cons] at h
      rw [List.cons_append, Step.runAll_cons, Step.runAll_cons]
      cases hrun : (Step.run d step).2 with
      | none =>
          rw [hrun] at h
          exact ih h
      | some message =>
          rw [hrun] at h
          cases h

theorem Step.runAll_append_fst (h : (Step.runAll d (steps ++ rest)).2 = none) :
    (Step.runAll d steps).2 = none := by
  induction steps generalizing d with
  | nil => rfl
  | cons step steps ih =>
      rw [List.cons_append, Step.runAll_cons] at h
      rw [Step.runAll_cons]
      cases hrun : (Step.run d step).2 with
      | none =>
          rw [hrun] at h
          exact ih h
      | some message =>
          rw [hrun] at h
          cases h

/-! ## Scopes that are installed for the duration of a body -/

mutual

/-- A lexical step leaves the ambient context as it was, whether it ends normally or fails. -/
theorem Step.run_lexical (d : Desk) (hd : d.KeepsIdle) :
    ∀ step : Step, step.every Step.isLexical = true →
      (Step.run d step).1.ambient = d.ambient ∧ (Step.run d step).1.KeepsIdle
  | .install s c name, h => by
      have hinert : s.scope = .inert := by simpa [Step.every, Step.isLexical] using h
      have hidle : (d.install s c).2.isIdle = true := Desk.isIdle_install hinert
      rw [Step.run]
      refine ⟨?_, (Desk.KeepsIdle.keep (hd.of_kept Desk.kept_install) hidle).of_kept rfl⟩
      rw [Desk.ambient_note, Desk.ambient_keep, Desk.ambient_install, hinert]
      rfl
  | .keepIdle name, _ => by
      rw [Step.run]
      exact ⟨rfl, (hd.keep rfl).of_kept rfl⟩
  | .keepNote name, _ => by
      rw [Step.run]
      exact ⟨rfl, (hd.keep rfl).of_kept rfl⟩
  | .drop name, _ => by
      rw [Step.run]
      exact ⟨hd.ambient_dropFirst, hd.dropFirst.of_kept rfl⟩
  | .within s c body, h => by
      have hbody : Step.everyOf Step.isLexical body = true := by
        simpa [Step.every, Step.isLexical] using h
      obtain ⟨hambient, hkept⟩ :=
        Step.runAll_lexical (d.enter s c) (hd.of_kept Desk.kept_enter) body hbody
      -- The body leaves what the installation shows, so its guard puts back what that replaced.
      rw [Desk.ambient_enter] at hambient
      rw [Step.ambient_run_within]
      exact ⟨Desk.ambient_release_of_shown hambient, hkept.of_kept Step.kept_run_within⟩
  | .catching body, h => by
      have hbody : Step.everyOf Step.isLexical body = true := by
        simpa [Step.every, Step.isLexical] using h
      obtain ⟨hambient, hkept⟩ := Step.runAll_lexical d hd body hbody
      rw [Step.ambient_run_catching]
      exact ⟨hambient, hkept.of_kept Step.kept_run_catching⟩
  | .fail _, _ => by
      rw [Step.run]
      exact ⟨rfl, hd⟩
  | .current, _ => by
      rw [Step.run]
      exact ⟨rfl, hd.of_kept rfl⟩

/-- Lexical steps leave the ambient context as it was, whether they end normally or fail. -/
theorem Step.runAll_lexical (d : Desk) (hd : d.KeepsIdle) :
    ∀ steps : List Step, Step.everyOf Step.isLexical steps = true →
      (Step.runAll d steps).1.ambient = d.ambient ∧ (Step.runAll d steps).1.KeepsIdle
  | [], _ => ⟨rfl, hd⟩
  | step :: rest, h => by
      obtain ⟨hstep, hrest⟩ := Bool.and_eq_true_iff.mp h
      obtain ⟨hambient, hkept⟩ := Step.run_lexical d hd step hstep
      rw [Step.runAll_cons]
      split
      next =>
        obtain ⟨hambient', hkept'⟩ := Step.runAll_lexical (Step.run d step).1 hkept rest hrest
        exact ⟨hambient'.trans hambient, hkept'⟩
      next => exact ⟨hambient, hkept⟩

end

/-- A run of the steps from `d` comes to `e`, inside the bodies of these installations, outermost
first. -/
inductive Reaches : Desk → List Step → List (Installer × Context) → Desk → Prop
  /-- Before the first step. -/
  | here (d : Desk) (steps : List Step) : Reaches d steps [] d
  /-- Behind a step that has ended normally. -/
  | later {d e : Desk} {step : Step} {rest : List Step} {around : List (Installer × Context)}
      (hrun : (Step.run d step).2 = none) (h : Reaches (Step.run d step).1 rest around e) :
      Reaches d (step :: rest) around e
  /-- In a body for which something is installed. -/
  | within {d e : Desk} {body rest : List Step} {around : List (Installer × Context)}
      (s : Installer) (c : Context) (h : Reaches (d.enter s c) body around e) :
      Reaches d (.within s c body :: rest) ((s, c) :: around) e
  /-- In a body whose failure is caught. -/
  | catching {d e : Desk} {body rest : List Step} {around : List (Installer × Context)}
      (h : Reaches d body around e) : Reaches d (.catching body :: rest) around e

/-- Among lexical steps the ambient context is what the bodies around have made it: nothing is left
of the bodies that have ended, and of the failures that have been caught. -/
theorem Reaches.ambient_eq {around : List (Installer × Context)} (h : Reaches d steps around e)
    (hd : d.KeepsIdle) (hlexical : Step.everyOf Step.isLexical steps = true) :
    e.ambient = around.foldl (fun outside body => body.1.scope.shown body.2 outside) d.ambient := by
  induction h with
  | here d steps => rfl
  | @later d e step rest around hrun _ ih =>
      obtain ⟨hstep, hrest⟩ := Bool.and_eq_true_iff.mp hlexical
      obtain ⟨hambient, hkept⟩ := Step.run_lexical d hd step hstep
      rw [ih hkept hrest, hambient]
  | @within d e body rest around s c _ ih =>
      have hbody : Step.everyOf Step.isLexical body = true := by
        simp only [Step.everyOf, Step.every, Step.isLexical, Bool.and_eq_true] at hlexical
        exact hlexical.1.2
      rw [ih (hd.of_kept Desk.kept_enter) hbody, Desk.ambient_enter, List.foldl_cons]
  | @catching d e body rest around _ ih =>
      have hbody : Step.everyOf Step.isLexical body = true := by
        simp only [Step.everyOf, Step.every, Step.isLexical, Bool.and_eq_true] at hlexical
        exact hlexical.1.2
      exact ih hd hbody

/-! ## Guards that are kept -/

/-- A guard that is held stays where it is when others are kept behind it. -/
theorem Desk.held?_keep {other : String} (h : d.held? name = some g) (g' : KeptGuard) :
    (d.keep other g').held? name = some g := by
  obtain ⟨entry, hfound, hentry⟩ := Option.map_eq_some_iff.mp h
  simp [Desk.held?, List.find?_append, hfound, hentry]

theorem Desk.held?_of_kept (hkept : e.kept = d.kept) : e.held? name = d.held? name := by
  rw [Desk.held?, hkept]
  rfl

theorem Desk.held?_dropFirst {other : String} (h : other ≠ name) :
    (d.dropFirst other).held? name = d.held? name := by
  unfold Desk.held?
  rw [Desk.kept_dropFirst]
  induction d.kept with
  | nil => rfl
  | cons entry entries ih => grind

mutual

/-- A step that does not drop the name leaves the guard in its place. -/
theorem Step.held?_run (d : Desk) (hheld : d.held? name = some g) :
    ∀ step : Step, step.every (Step.spares name) = true →
      (Step.run d step).1.held? name = some g
  | .install s c other, _ => by
      rw [Step.run]
      exact Desk.held?_keep ((Desk.held?_of_kept Desk.kept_install).trans hheld) _
  | .keepIdle other, _ => by
      rw [Step.run]
      exact Desk.held?_keep hheld _
  | .keepNote other, _ => by
      rw [Step.run]
      exact Desk.held?_keep hheld _
  | .drop other, h => by
      have hother : other ≠ name := by simpa [Step.every, Step.spares] using h
      rw [Step.run]
      exact (Desk.held?_dropFirst hother).trans hheld
  | .within s c body, h => by
      have hbody : Step.everyOf (Step.spares name) body = true := by
        simpa [Step.every, Step.spares] using h
      rw [Desk.held?_of_kept Step.kept_run_within]
      exact Step.held?_runAll (d.enter s c) ((Desk.held?_of_kept Desk.kept_enter).trans hheld)
        body hbody
  | .catching body, h => by
      have hbody : Step.everyOf (Step.spares name) body = true := by
        simpa [Step.every, Step.spares] using h
      rw [Desk.held?_of_kept Step.kept_run_catching]
      exact Step.held?_runAll d hheld body hbody
  | .fail _, _ => by
      rw [Step.run]
      exact hheld
  | .current, _ => by
      rw [Step.run]
      exact hheld

/-- Steps that do not drop the name leave the guard in its place. -/
theorem Step.held?_runAll (d : Desk) (hheld : d.held? name = some g) :
    ∀ steps : List Step, Step.everyOf (Step.spares name) steps = true →
      (Step.runAll d steps).1.held? name = some g
  | [], _ => hheld
  | step :: rest, h => by
      obtain ⟨hstep, hrest⟩ := Bool.and_eq_true_iff.mp h
      have hheld' := Step.held?_run d hheld step hstep
      rw [Step.runAll_cons]
      split
      next => exact Step.held?_runAll (Step.run d step).1 hheld' rest hrest
      next => exact hheld'

end

/-- Dropping the name under which the guard of an installation is held restores what was ambient
before the installation, whatever is ambient now. -/
theorem Desk.ambient_dropFirst_install (h : s.scope ≠ .inert)
    (hheld : e.held? name = some (d.install s c).2) :
    (e.dropFirst name).ambient = d.ambient := by
  rw [Desk.ambient_dropFirst, hheld]
  exact Desk.ambient_release_install h

/-- Under a name that is not in use, an installation keeps its guard as the first one. -/
theorem Step.held?_run_install (h : d.held? name = none) :
    (Step.run d (.install s c name)).1.held? name = some (d.install s c).2 := by
  have hnone : d.kept.find? (·.1 == name) = none := Option.map_eq_none_iff.mp h
  rw [Step.run]
  simp [Desk.held?, List.find?_append, hnone]

/-- What has been ambient when a guard was installed is ambient again when it is dropped. -/
theorem Step.ambient_drop {pre mid : List Step}
    (hfresh : (Step.runAll d pre).1.held? name = none) (hscope : s.scope ≠ .inert)
    (hspared : Step.everyOf (Step.spares name) mid = true)
    (hruns : (Step.runAll d (pre ++ .install s c name :: mid)).2 = none) :
    (Step.runAll d (pre ++ .install s c name :: mid ++ [.drop name])).2 = none ∧
      (Step.runAll d (pre ++ .install s c name :: mid ++ [.drop name])).1.ambient =
        (Step.runAll d pre).1.ambient := by
  have hpre : (Step.runAll d pre).2 = none := Step.runAll_append_fst hruns
  set before := (Step.runAll d pre).1 with hbefore
  have hmiddle : Step.runAll d (pre ++ .install s c name :: mid) =
      Step.runAll (Step.run before (.install s c name)).1 mid := by
    rw [Step.runAll_append hpre, Step.runAll_cons, ← hbefore]
    rfl
  have hheld := Step.held?_runAll _ (Step.held?_run_install (s := s) (c := c) hfresh) mid hspared
  rw [Step.runAll_append hruns, hmiddle, Step.runAll_cons]
  exact ⟨rfl, Desk.ambient_dropFirst_install hscope hheld⟩

theorem Step.everyOf_iff {p : Step → Bool} :
    Step.everyOf p steps = true ↔ ∀ step ∈ steps, step.every p = true := by
  induction steps with
  | nil => simp [Step.everyOf]
  | cons step steps ih => simp [Step.everyOf, ih]

/-- Steps that never fail end normally one after the other. -/
theorem Step.runAll_normal (h : ∀ step ∈ steps, ∀ d, (Step.run d step).2 = none) :
    (Step.runAll d steps).2 = none := by
  induction steps generalizing d with
  | nil => rfl
  | cons step steps ih =>
      rw [Step.runAll_cons, h step List.mem_cons_self d]
      exact ih fun other hother => h other (List.mem_cons_of_mem _ hother)

theorem Step.run_keeping (kept : Installer × Context × String) :
    (Step.run d (.keeping kept)).2 = none := rfl

/-- Keeping guards under other names leaves a name that is not in use as it is. -/
theorem Step.held?_runAll_keeping {held : List (Installer × Context × String)}
    (h : d.held? name = none) (hother : name ∉ held.map (·.2.2)) :
    (Step.runAll d (held.map Step.keeping)).1.held? name = none := by
  induction held generalizing d with
  | nil => exact h
  | cons kept held ih =>
      rw [List.map_cons, List.mem_cons, not_or] at hother
      rw [List.map_cons, Step.runAll_cons, Step.run_keeping]
      refine ih ?_ hother.2
      have hnone : d.kept.find? (·.1 == name) = none := Option.map_eq_none_iff.mp h
      have hne : ¬ kept.2.2 = name := fun heq => hother.1 heq.symm
      simp [Step.keeping, Step.run, Desk.held?, List.find?_append, hnone, hne]

/-- Keep the guards of these installations, then drop these names. -/
def Step.releasing (held : List (Installer × Context × String)) (order : List String) : List Step :=
  held.map Step.keeping ++ order.map Step.drop

/-- Of guards that are kept one after the other and released in some order, the last one decides:
what was ambient when it was installed is ambient again. -/
theorem Step.ambient_releasing (first more : List (Installer × Context × String))
    {order : List String}
    (horder : (order ++ [name]).Perm ((first ++ (s, c, name) :: more).map (·.2.2)))
    (hnames : ((first ++ (s, c, name) :: more).map (·.2.2)).Nodup)
    (hfresh : d.held? name = none) (hscope : s.scope ≠ .inert) :
    (Step.runAll d (Step.releasing (first ++ (s, c, name) :: more) (order ++ [name]))).2 = none ∧
      (Step.runAll d
          (Step.releasing (first ++ (s, c, name) :: more) (order ++ [name]))).1.ambient =
        (Step.runAll d (first.map Step.keeping)).1.ambient := by
  have hlast : name ∉ order := by
    have hnodup : (order ++ [name]).Nodup := horder.nodup_iff.mpr hnames
    exact fun hmem => (List.nodup_append.mp hnodup).2.2 name hmem name (by simp) rfl
  have hfirst : name ∉ first.map (·.2.2) := by
    rw [List.map_append] at hnames
    exact fun hmem => (List.nodup_append.mp hnames).2.2 name hmem name (by simp) rfl
  set mid := more.map Step.keeping ++ order.map Step.drop with hmid
  have hshape : Step.releasing (first ++ (s, c, name) :: more) (order ++ [name]) =
      first.map Step.keeping ++ .install s c name :: mid ++ [.drop name] := by
    simp [Step.releasing, Step.keeping, hmid]
  have hspared : Step.everyOf (Step.spares name) mid = true := by
    rw [Step.everyOf_iff]
    intro step hstep
    rcases List.mem_append.mp hstep with hkept | hdropped
    · obtain ⟨kept, -, rfl⟩ := List.mem_map.mp hkept
      rfl
    · obtain ⟨other, hother, rfl⟩ := List.mem_map.mp hdropped
      simpa [Step.every, Step.spares] using fun heq : other = name => hlast (heq ▸ hother)
  have hruns : (Step.runAll d (first.map Step.keeping ++ .install s c name :: mid)).2 = none := by
    refine Step.runAll_normal fun step hstep e => ?_
    simp only [hmid, List.mem_append, List.mem_cons, List.mem_map] at hstep
    obtain ⟨kept, -, rfl⟩ | rfl | ⟨kept, -, rfl⟩ | ⟨other, -, rfl⟩ := hstep <;> rfl
  rw [hshape]
  exact Step.ambient_drop (Step.held?_runAll_keeping hfresh hfirst) hscope hspared hruns

/-- Guards that are released in the reverse of the order in which they were installed leave what
was ambient before the first one. -/
theorem Step.ambient_releasing_reverse (held : List (Installer × Context × String))
    (hnames : (held.map (·.2.2)).Nodup) (hfresh : ∀ name ∈ held.map (·.2.2), d.held? name = none)
    (hscopes : ∀ kept ∈ held, kept.1.scope ≠ .inert) :
    (Step.runAll d (Step.releasing held (held.map (·.2.2)).reverse)).1.ambient = d.ambient := by
  cases held with
  | nil => rfl
  | cons kept held =>
      obtain ⟨s, c, name⟩ := kept
      have hreverse : (((s, c, name) :: held).map (·.2.2)).reverse =
          (held.map (·.2.2)).reverse ++ [name] := by simp
      have horder : ((held.map (·.2.2)).reverse ++ [name]).Perm
          (((s, c, name) :: held).map (·.2.2)) := by
        rw [← hreverse]
        exact List.reverse_perm _
      have hfirst : d.held? name = none := hfresh name (by simp)
      have hscope : s.scope ≠ .inert := hscopes (s, c, name) List.mem_cons_self
      rw [hreverse]
      exact (Step.ambient_releasing [] held horder hnames hfirst hscope).2

/-- Guards restore on every way out. Steps that install for the duration of a body only, with
bodies, failures, catches and idle guards nested and sequenced as they like, leave the ambient
context as it was, whether they end normally or fail; and wherever a run of them comes to, at the
beginning of a body in particular, the ambient context is what the bodies around have made it, each
showing its own context, or of it the listed keys, or nothing at all.

A guard that is kept and released later restores what was ambient when it was installed, whatever
has run in between. So of guards that are released in any order the last one decides, and in the
reverse order of installation they leave what was ambient before. -/
theorem restored_on_release (d : Desk) :
    (∀ steps, d.KeepsIdle → Step.everyOf Step.isLexical steps = true →
      (Step.runAll d steps).1.ambient = d.ambient ∧
      (Step.runAll d steps).1.releaseAll.ambient = d.ambient ∧
      ∀ around e, Reaches d steps around e → e.ambient =
        around.foldl (fun outside body => body.1.scope.shown body.2 outside) d.ambient) ∧
    (∀ pre mid s c name, (Step.runAll d pre).1.held? name = none → s.scope ≠ .inert →
      Step.everyOf (Step.spares name) mid = true →
      (Step.runAll d (pre ++ .install s c name :: mid)).2 = none →
      (Step.runAll d (pre ++ .install s c name :: mid ++ [.drop name])).1.ambient =
        (Step.runAll d pre).1.ambient) ∧
    (∀ first more order s c name,
      (order ++ [name]).Perm ((first ++ (s, c, name) :: more).map (·.2.2)) →
      ((first ++ (s, c, name) :: more).map (·.2.2)).Nodup → d.held? name = none →
      s.scope ≠ .inert →
      (Step.runAll d
          (Step.releasing (first ++ (s, c, name) :: more) (order ++ [name]))).1.ambient =
        (Step.runAll d (first.map Step.keeping)).1.ambient) ∧
    ∀ held, (held.map (·.2.2)).Nodup → (∀ name ∈ held.map (·.2.2), d.held? name = none) →
      (∀ kept ∈ held, kept.1.scope ≠ .inert) →
      (Step.runAll d (Step.releasing held (held.map (·.2.2)).reverse)).1.ambient = d.ambient := by
  refine ⟨fun steps hd hlexical => ?_, ?_, ?_, fun held => Step.ambient_releasing_reverse held⟩
  · obtain ⟨hambient, hkept⟩ := Step.runAll_lexical d hd steps hlexical
    exact ⟨hambient, hkept.ambient_releaseAll.trans hambient,
      fun _ _ hreaches => hreaches.ambient_eq hd hlexical⟩
  · exact fun _ _ _ _ _ hfresh hscope hspared hruns =>
      (Step.ambient_drop hfresh hscope hspared hruns).2
  · exact fun first more _ _ _ _ horder hnames hfresh hscope =>
      (Step.ambient_releasing first more horder hnames hfresh hscope).2

end

open scoped Scenario

/-- A failure leaves a body and is caught in another one, which shows its own context; one guard is
dropped behind a body, and two are released in the order in which they were kept and in reverse. -/
theorem restored_on_release_nested :
    let c : Context := .singleton "k" (.bool true)
    let body : List Step := [.within ⟨.keys ["j"], false⟩ c [.fail "once"]]
    let steps : List Step := [.within ⟨.all, true⟩ c [.catching body, .fail "again"]]
    let held : List (Installer × Context × String) :=
      [(⟨.all, true⟩, c, "first"), (⟨.keys ["j"], false⟩, c, "second")]
    (Step.runAll .start steps).2 = some "again" ∧
    (Step.runAll .start steps).1.ambient = .empty ∧
    (∃ e, Reaches .start steps [(⟨.all, true⟩, c)] e ∧ 2 < e.lines.length ∧ e.ambient = c) ∧
    (∃ e, Reaches .start steps [(⟨.all, true⟩, c), (⟨.keys ["j"], false⟩, c)] e ∧
      e.ambient = c.restrict ["j"]) ∧
    (Step.runAll .start ([] ++ .install ⟨.all, true⟩ c "first" :: [.catching body] ++
      [.drop "first"])).1.ambient = .empty ∧
    (Step.runAll .start (Step.releasing held ["first", "second"])).1.ambient = c ∧
    (Step.runAll .start (Step.releasing held ["second", "first"])).1.ambient = .empty := by
  intro c body steps held
  obtain ⟨hlexical, hdrop, horder, hreverse⟩ := restored_on_release .start
  have hidle : Desk.start.KeepsIdle := fun _ hentry => absurd hentry List.not_mem_nil
  obtain ⟨hambient, -, hreaches⟩ := hlexical steps hidle (by decide +kernel)
  have hcaught : Reaches .start steps [(⟨.all, true⟩, c)] _ :=
    .within _ _ (.later (by decide +kernel) (.here _ _))
  have hinner : Reaches .start steps [(⟨.all, true⟩, c), (⟨.keys ["j"], false⟩, c)] _ :=
    .within _ _ (.catching (.within _ _ (.here _ _)))
  exact ⟨by decide +kernel, hambient, ⟨_, hcaught, by decide +kernel, hreaches _ _ hcaught⟩,
    ⟨_, hinner, hreaches _ _ hinner⟩,
    hdrop [] [.catching body] _ c "first" rfl (by decide) (by decide +kernel) (by decide +kernel),
    horder [(⟨.all, true⟩, c, "first")] [] ["first"] _ c "second" (by decide) (by decide) rfl
      (by decide),
    hreverse held (by decide) (by decide) (by decide)⟩

end Wiretap.Scope
