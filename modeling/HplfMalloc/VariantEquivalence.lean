import HplfMalloc.BumpWorld
import HplfMalloc.Proof.ProgramSteps

/-!
# Equivalence of the two builds

A program of one thread cannot tell the locked build from the cached one, whatever the thread library
answers, as long as the system answers both alike.
-/

namespace Hplf

variable {Tid : Type}

/-- The answers that the first run got, and those the second got beyond them. -/
def Answers.ofRuns (w : World) (first second : List Bool) : Answers where
  pageSize := w.sysconf
  maps i := (first[i]?).getD ((second[i]?).getD false)

theorem Answers.agrees_first (w : World) {s : State Tid} (second : List Bool) :
    Agrees (Answers.ofRuns w s.mapOutcomes second) w s where
  pageSize _ := rfl
  maps i answer hanswer := by
    simp only [Answers.ofRuns, hanswer, Option.getD_some]

theorem Answers.agrees_second {w w' : World} (hpages : ∀ n, w.sysconf n = w'.sysconf n) {s : State Tid}
    {first : List Bool}
    (hmaps : ∀ (i : Nat) (outcome outcome' : Bool), first[i]? = some outcome → s.mapOutcomes[i]? = some outcome' →
      outcome = outcome') : Agrees (Answers.ofRuns w first s.mapOutcomes) w' s where
  pageSize n := (hpages n).symm
  maps i answer hanswer := by
    simp only [Answers.ofRuns, hanswer, Option.getD_some]
    cases hfirst : first[i]? with
    | none => rfl
    | some outcome => exact (hmaps i outcome answer hfirst hanswer).symm

variable [DecidableEq Tid]

/-- **Single-threaded equivalence.** Any calls of one thread, run by the locked build in a world `w₁` and by
the cached build in a world `w₂` that answers page-size queries alike: both runs return, and if mappings of
the same number that both asked for had the same outcome, the runs show the same after every call. Nothing is
assumed of how `w₂` answers the setup of the cache. The mappings are numbered by the calls of `mmap`; what
`hplf_os_map` does before, a page-size query and a rounding, is part of the model. -/
theorem variant_equivalence (w₁ w₂ : World) (t : Tid) (script : List ScriptCall)
    (hpages : ∀ n, w₁.sysconf n = w₂.sysconf n) :
    ∃ P₁ reports₁ P₂ reports₂,
      Program.run .locked w₁ t 0 .initial script = some (P₁, reports₁) ∧
      Program.run .cached w₂ t 0 .initial script = some (P₂, reports₂) ∧
      ((∀ (i : Nat) (outcome outcome' : Bool), P₁.state.mapOutcomes[i]? = some outcome →
          P₂.state.mapOutcomes[i]? = some outcome' → outcome = outcome') →
        reports₁ = reports₂) := by
  obtain ⟨P₁, reports₁, hrun₁, -, htally₁⟩ := (Account.initial .locked t).runs w₁ script 0
  obtain ⟨P₂, reports₂, hrun₂, -, htally₂⟩ := (Account.initial .cached t).runs w₂ script 0
  refine ⟨P₁, reports₁, P₂, reports₂, hrun₁, hrun₂, fun hmaps => ?_⟩
  have hfirst := htally₁ _ Tally.initial .initial (Answers.agrees_first w₁ P₂.state.mapOutcomes)
  have hsecond := htally₂ _ Tally.initial .initial (Answers.agrees_second hpages hmaps)
  exact hfirst.trans hsecond.symm

/-- A slab is created and used up to its second block, one block is freed and its slot reused, the other is
moved, and the cache is flushed. -/
def mixedScript : List ScriptCall :=
  [.malloc 3073, .malloc 4000, .free 0, .malloc 3500, .realloc 1 5000, .threadFlush]

/-- The builds show the same of this program: one slab, and one block moved. -/
theorem variant_equivalence_mixed : ∃ (P₁ P₂ : Program Nat) (reports : List Report),
    Program.run .locked (bumpWorld fun _ => none) 0 0 .initial mixedScript = some (P₁, reports) ∧
    Program.run .cached (bumpWorld fun _ => none) 0 0 .initial mixedScript = some (P₂, reports) ∧
    reports.map (fun r => (r.null, r.moved, r.created.isSome)) = [(false, false, true),
      (false, false, false), (true, false, false), (false, false, false), (false, true, false),
      (true, false, false)] := by
  have houtcomes : ∀ v ∈ [Variant.locked, Variant.cached],
      ((Program.run v (bumpWorld fun _ => none) 0 0 (.initial : Program Nat) mixedScript).any fun run =>
        decide (run.1.state.mapOutcomes = [true, true] ∧
          run.2.map (fun r => (r.null, r.moved, r.created.isSome)) = [(false, false, true),
            (false, false, false), (true, false, false), (false, false, false), (false, true, false),
            (true, false, false)])) = true := by
    decide +kernel
  obtain ⟨P₁, reports₁, P₂, reports₂, hrun₁, hrun₂, hequal⟩ := variant_equivalence
    (bumpWorld fun _ => none) (bumpWorld fun _ => none) (0 : Nat) mixedScript fun _ => rfl
  have hlocked := houtcomes .locked (by simp)
  have hcached := houtcomes .cached (by simp)
  rw [hrun₁, Option.any_some, decide_eq_true_eq] at hlocked
  rw [hrun₂, Option.any_some, decide_eq_true_eq] at hcached
  obtain rfl := hequal fun i outcome outcome' h h' => by
    rw [hlocked.1, ← hcached.1, h'] at h
    exact (Option.some.inj h).symm
  exact ⟨P₁, P₂, reports₁, hrun₁, hrun₂, hlocked.2⟩

end Hplf
