/-
# The depth of a run

The depth limits how far calls nest. A run that ends within a depth ends in the
same way at every greater one, so what a run that ends did is a fact about the
program and not about the limit.
-/

import Kode.Modules.Loader

namespace Kode.Modules.Loader

open Kode.Library.PosixPath

/-- Wherever `call` ends, `deeper` does the same. -/
def Deepens (call deeper : Caller) : Prop :=
  ∀ owner current callee args loader,
    (call owner current callee args loader).1 ≠ .exhausted →
      deeper owner current callee args loader = call owner current callee args loader

theorem resume_deepens {ended endedDeeper : Outcome × Loader}
    {next nextDeeper : Except Value Value → Loader → Outcome × Loader}
    (ends : (resume ended next).1 ≠ .exhausted)
    (first : ended.1 ≠ .exhausted → endedDeeper = ended)
    (rest : ∀ result after, (next result after).1 ≠ .exhausted →
      nextDeeper result after = next result after) :
    resume endedDeeper nextDeeper = resume ended next := by
  obtain ⟨outcome, after⟩ := ended
  cases outcome with
  | ok value =>
      rw [first (by simp)]
      exact rest (.ok value) after ends
  | error error =>
      rw [first (by simp)]
      exact rest (.error error) after ends
  | exhausted => exact absurd rfl ends

section Deepen

variable {call deeper : Caller} (deepens : Deepens call deeper)

include deepens

theorem getProperty_deepens {owner current : Owner} {target : Value} {name : Text}
    {loader : Loader} (ends : (getProperty call owner current target name loader).1 ≠ .exhausted) :
    getProperty deeper owner current target name loader =
      getProperty call owner current target name loader := by
  unfold getProperty at ends ⊢
  split
  · rfl
  · rename_i ref
    dsimp only at ends
    split
    · rfl
    · rfl
    · rename_i getter found
      rw [found] at ends
      exact deepens owner current getter [] loader ends
  · rfl

theorem readGlobalRequire_deepens {owner current : Owner} {loader : Loader}
    (ends : (readGlobalRequire call owner current loader).1 ≠ .exhausted) :
    readGlobalRequire deeper owner current loader =
      readGlobalRequire call owner current loader := by
  unfold readGlobalRequire at ends ⊢
  split
  · rfl
  · rename_i getter found
    rw [found] at ends
    exact deepens owner current getter [] loader ends

theorem runCode_deepens {owner current : Owner} {code : Code} {loader : Loader}
    (ends : (runCode call owner current code loader).1 ≠ .exhausted) :
    runCode deeper owner current code loader = runCode call owner current code loader := by
  induction code generalizing loader with
  | «return» value => rfl
  | throw error => rfl
  | call callee args next ih =>
      apply resume_deepens ends
      · intro ended
        exact deepens owner current callee args loader ended
      · intro result after ended
        exact ih result ended
  | get target name next ih =>
      apply resume_deepens ends
      · intro ended
        exact getProperty_deepens deepens ended
      · intro result after ended
        exact ih result ended
  | set target name value next ih =>
      apply resume_deepens ends
      · intro _
        rfl
      · intro result after ended
        exact ih result ended
  | define target name getter next ih =>
      apply resume_deepens ends
      · intro _
        rfl
      · intro result after ended
        exact ih result ended
  | create next ih => exact ih _ ends
  | function body next _ ih => exact ih _ ends
  | setGlobalRequire value next ih =>
      simp only [runCode] at ends ⊢
      split at ends
      · exact ih ends
      · exact ih ends
  | defineGlobalRequire getter next ih => exact ih ends

theorem readExports_deepens {current : Owner} {filename : Text} {module : ℕ} {loader : Loader}
    (ends : (readExports call current filename module loader).1 ≠ .exhausted) :
    readExports deeper current filename module loader =
      readExports call current filename module loader := by
  have reads : (getProperty call (.file filename) current (.object module) exportsName
      loader).1 ≠ .exhausted := by
    intro exhausted
    apply ends
    unfold readExports
    split <;> simp_all
  unfold readExports
  rw [getProperty_deepens deepens reads]

theorem callWrapper_deepens {current : Owner} {filename : Text} {exports module : ℕ}
    {wrapper requireValue : Value} {loader : Loader}
    (ends : (callWrapper call current filename exports module wrapper requireValue
      loader).1 ≠ .exhausted) :
    callWrapper deeper current filename exports module wrapper requireValue loader =
      callWrapper call current filename exports module wrapper requireValue loader := by
  have calls : (call (.file filename) (.file filename) wrapper
      [.object exports, requireValue, .object module, .text filename, .text (dirname filename)]
      ((loader.pushDir (dirname filename)).record (.body filename))).1 ≠ .exhausted := by
    intro exhausted
    apply ends
    unfold callWrapper
    dsimp only
    split <;> simp_all
  unfold callWrapper at ends ⊢
  dsimp only at ends ⊢
  rw [deepens _ _ _ _ _ calls]
  split
  · rename_i ended
    rw [ended] at ends
    exact readExports_deepens deepens ends
  · rfl
  · rfl

theorem enterModule_deepens {current : Owner} {filename : Text} {exports module : ℕ}
    {wrapper : Value} {loader : Loader}
    (ends : (enterModule call current filename exports module wrapper loader).1 ≠ .exhausted) :
    enterModule deeper current filename exports module wrapper loader =
      enterModule call current filename exports module wrapper loader := by
  have reads : (readGlobalRequire call (.file filename) current loader).1 ≠ .exhausted := by
    intro exhausted
    apply ends
    unfold enterModule
    split <;> simp_all
  unfold enterModule at ends ⊢
  rw [readGlobalRequire_deepens deepens reads]
  split
  · rename_i ended
    rw [ended] at ends
    split_ifs with callable
    · simp only [callable, if_true] at ends
      exact callWrapper_deepens deepens ends
    · rfl
  · rfl
  · rfl

theorem evaluateModule_deepens {current : Owner} {filename : Text} {exports module : ℕ}
    {source : Source} {loader : Loader}
    (ends : (evaluateModule call current filename exports module source
      loader).1 ≠ .exhausted) :
    evaluateModule deeper current filename exports module source loader =
      evaluateModule call current filename exports module source loader := by
  cases source with
  | invalid error => rfl
  | script code =>
      have runs : (runCode call (.file filename) current code loader).1 ≠ .exhausted := by
        intro exhausted
        apply ends
        unfold evaluateModule
        dsimp only
        split <;> simp_all
      unfold evaluateModule at ends ⊢
      dsimp only at ends ⊢
      rw [runCode_deepens deepens runs]
      split
      · rename_i ended
        rw [ended] at ends
        split_ifs with callable
        · simp only [callable, if_true] at ends
          exact enterModule_deepens deepens ends
        · rfl
      · rfl
      · rfl

theorem cachedExports_deepens {owner current : Owner} {filename : Text} {module : ℕ}
    {loader : Loader}
    (ends : (cachedExports call owner current filename module loader).1 ≠ .exhausted) :
    cachedExports deeper owner current filename module loader =
      cachedExports call owner current filename module loader := by
  have reads : (getProperty call owner current (.object module) exportsName loader).1 ≠
      .exhausted := by
    intro exhausted
    apply ends
    unfold cachedExports
    split <;> simp_all
  unfold cachedExports
  rw [getProperty_deepens deepens reads]

theorem loadLocalModule_deepens {fs : FileSystem} {owner current : Owner} {specifier : Text}
    {loader : Loader}
    (ends : (loadLocalModule fs call owner current specifier loader).1 ≠ .exhausted) :
    loadLocalModule fs deeper owner current specifier loader =
      loadLocalModule fs call owner current specifier loader := by
  unfold loadLocalModule at ends ⊢
  dsimp only at ends ⊢
  split
  · rename_i entry
    rw [entry] at ends
    exact cachedExports_deepens deepens ends
  · rename_i missing
    rw [missing] at ends
    split
    · rfl
    · rename_i read
      rw [read] at ends
      exact evaluateModule_deepens deepens ends

theorem callValue_deepens (fs : FileSystem) :
    Deepens (callValue fs call) (callValue fs deeper) := by
  intro owner current callee args loader ends
  unfold callValue at ends ⊢
  split
  · unfold requireCallback at ends ⊢
    dsimp only at ends
    split
    · rename_i name rest
      dsimp only at ends
      split_ifs with builtin isLocal
      · rfl
      · have loads : (loadLocalModule fs call owner current name loader).1 ≠ .exhausted := by
          intro exhausted
          apply ends
          simp only [builtin, isLocal, if_true, if_false]
          split <;> simp_all
        rw [loadLocalModule_deepens deepens loads]
      · rfl
    · rfl
  · rename_i ref
    dsimp only at ends
    split
    · rename_i closure found
      rw [found] at ends
      exact runCode_deepens deepens ends
    · rfl
  · rfl

end Deepen

/-- One more level changes nothing for a call that ends. -/
theorem invoke_deepens (fs : FileSystem) (depth : ℕ) :
    Deepens (invoke fs depth) (invoke fs (depth + 1)) := by
  induction depth with
  | zero =>
      intro owner current callee args loader ends
      exact absurd rfl ends
  | succ depth ih => exact callValue_deepens ih fs

/-- An entry script that ends at a depth ends in the same way at every greater one. -/
theorem runEntry_deepens (fs : FileSystem) (depth extra : ℕ) (filename : Text) (entry : Code)
    (ends : (runEntry fs depth filename entry).1 ≠ .exhausted) :
    runEntry fs (depth + extra) filename entry = runEntry fs depth filename entry := by
  induction extra with
  | zero => rfl
  | succ extra ih =>
      rw [← ih] at ends
      rw [← ih]
      exact runCode_deepens (invoke_deepens fs (depth + extra)) ends

end Kode.Modules.Loader
