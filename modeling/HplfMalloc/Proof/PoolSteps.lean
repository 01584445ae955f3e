import HplfMalloc.Proof.PoolReport

/-!
# The steps of the worker pool

Each transition keeps the invariant: first the books, then what the workers know, then what `main` knows.
-/

namespace Hplf.Pool

open Lib
open scoped BigOperators

variable {config : Configuration} {σ σ' : State config.workers} {event : Event config.workers}

/-! ### The books -/

theorem view_taken (o : Outcome config.workers) (i : Fin config.workers) (worker : Worker) :
    (((σ.takeFront.signalNotFull o).unlock o).goto i worker).view
      = { σ.view with
          ring := (σ.queue.ring.setFront none).pop
          carry := Function.update σ.view.carry i worker.carry } := by
  rw [view_goto]
  have hunlock : ((σ.takeFront.signalNotFull o).unlock o).view = (σ.takeFront.signalNotFull o).view := rfl
  rw [hunlock, view_signalNotFull]
  rfl

theorem Books.of_parcel {workers : Nat} {v : View workers} {parcel : Parcel} (h : Books config v)
    (hparcel : v.parcel = parcel) : Books config { v with parcel := parcel } := by
  subst hparcel
  exact h

theorem Inv.books_step (h : Inv config σ) (hstep : Step config σ event σ') (hbefore : σ.main.returned = false)
    (hafter : σ'.main.returned = false) : Books config σ'.view := by
  have hbooks := h.books hbefore
  cases hstep with
  | @popRefused i o hpc hfails =>
      rw [view_popError _ _ (by rw [hpc]; rfl)]
      exact hbooks
  | @popFailed i o hpc hfails =>
      rw [view_popError (σ.unlock o) _ (by change (σ.worker i).carry = _; rw [hpc]; rfl)]
      exact hbooks
  | popWait hpc hcount hopen =>
      rw [view_goto_same _ (Worker.carry_of_pops hpc)]
      exact hbooks
  | @popDrained i o hpc hcount hclosed =>
      have hcarry : ((σ.unlock o).worker i).carry = Worker.flush.carry := Worker.carry_of_pops hpc
      rw [view_goto_same _ hcarry]
      exact hbooks
  | popNull hpc hcount hfront => exact absurd hfront (hbooks.front_live hcount)
  | popTake hpc hcount hfront =>
      rw [view_taken]
      exact hbooks.take (Worker.carry_of_pops hpc) hcount hfront
  | @mark i o job contents hpc hlive =>
      have hcarry : σ.view.carry i = .popped job := by
        change (σ.worker i).carry = _
        rw [hpc]
        rfl
      have hid : idAt σ.view.store job = contents.id := idAt_of_live hlive
      rw [hbooks.markJob_eq h.produced_le hpc hlive, view_goto, ← hid]
      exact hbooks.mark hcarry
  | @verify i o job contents hpc hlive =>
      have hcarry : σ.view.carry i = .marked job := by
        change (σ.worker i).carry = _
        rw [hpc]
        rfl
      have hid : idAt σ.view.store job = contents.id := idAt_of_live hlive
      have hresult : (fun j => { Function.update σ.result i
            { σ.result i with
              checksum := (σ.result i).checksum + taskChecksum config contents.id
              consumed := (σ.result i).consumed + 1 } j with queueError := false })
          = Function.update (fun j => { σ.result j with queueError := false }) i
            { σ.view.result i with
              checksum := (σ.view.result i).checksum + taskChecksum config (idAt σ.view.store job)
              consumed := (σ.view.result i).consumed + 1 } := by
        funext j
        by_cases hj : j = i
        · subst hj
          simp only [Function.update_self, hid]
          rfl
        · simp only [Function.update_of_ne hj]
      have hview : ({ σ.view with
          result := fun j => { Function.update σ.result i
            { σ.result i with
              checksum := (σ.result i).checksum + taskChecksum config contents.id
              consumed := (σ.result i).consumed + 1 } j with queueError := false }
          carry := Function.update σ.view.carry i (.verified job) } : View config.workers)
          = { σ.view with
              result := Function.update σ.view.result i
                { σ.view.result i with
                  checksum := (σ.view.result i).checksum + taskChecksum config (idAt σ.view.store job)
                  consumed := (σ.view.result i).consumed + 1 }
              carry := Function.update σ.view.carry i (.verified job) } :=
        congrArg (fun result => ({ σ.view with
          result := result
          carry := Function.update σ.view.carry i (.verified job) } : View config.workers)) hresult
      rw [hbooks.verifyJob_eq hpc hlive, view_goto]
      exact (congrArg (Books config) hview).mpr (hbooks.verify hcarry)
  | @release i o job hpc hlive =>
      have hcarry : σ.view.carry i = .verified job := by
        change (σ.worker i).carry = _
        rw [hpc]
        rfl
      rw [view_goto]
      exact hbooks.release hcarry
  | workerFault hjob hdead =>
      have hlive := hbooks.worker_live hjob
      rw [hdead] at hlive
      cases hlive
  | workerCloseRefused hpc hfails =>
      rw [view_goto_same _ (by rw [hpc]; rfl)]
      exact hbooks
  | @workerClose i o hpc =>
      have hcarry : ((σ.closeSection o).worker i).carry = Worker.flush.carry := by
        have hsame := congrArg (fun v => View.carry v i) (view_closeSection σ o)
        exact hsame.trans (by change (σ.worker i).carry = _; rw [hpc]; rfl)
      rw [view_goto_same _ hcarry, view_closeSection]
      exact hbooks
  | flush hpc =>
      rw [view_goto_same _ (by rw [hpc]; rfl)]
      exact hbooks
  | @create o index hindex hpc hfail hcreated =>
      have habsent : σ.worker ⟨index, hindex⟩ = .absent := by
        have hmain := h.main
        rw [hpc] at hmain
        exact (h.absent _).mpr hmain.1.ge
      have hcarry : (σ.worker ⟨index, hindex⟩).carry = Worker.pop.carry := by rw [habsent]; rfl
      have hview := view_goto_same σ hcarry
      have hparcel : σ.main.parcel = .nothing := by rw [hpc]; rfl
      have hsame : { σ.goto ⟨index, hindex⟩ .pop with
          workersStarted := σ.workersStarted + 1
          main := .create (index + 1) }.view = { (σ.goto ⟨index, hindex⟩ .pop).view with parcel := .nothing } := rfl
      rw [hsame, hview]
      exact hbooks.of_parcel hparcel
  | setup hpc | createRefused _ hpc | createdAll hpc | producedAll hpc | injected hpc | oversized hpc
  | unallocated hpc | closeRefused hpc | joinedAll hpc | joinFailed hpc | join hpc =>
      have hparcel : σ.view.parcel = .nothing := by
        change σ.main.parcel = _
        rw [hpc]
        rfl
      exact hbooks.of_parcel hparcel
  | setupRefused => cases hafter
  | allocate hpc hindex hfail hfresh =>
      have hparcel : σ.view.parcel = .nothing := by
        change σ.main.parcel = _
        rw [hpc]
        rfl
      exact hbooks.allocate hparcel hfresh
  | @fill o index job block hpc hlive =>
      have hmain := h.main
      rw [hpc] at hmain
      obtain ⟨rfl, -⟩ := hmain
      have hparcel : σ.view.parcel = .raw job := by
        change σ.main.parcel = _
        rw [hpc]
        rfl
      exact hbooks.fill hparcel hlive
  | mainFault hjob hdead =>
      have hlive := hbooks.main_live hjob
      rw [hdead] at hlive
      cases hlive
  | @pushRefused o index job checksum hpc hfails =>
      have hparcel : σ.view.parcel = .filled index job checksum := by
        change σ.main.parcel = _
        rw [hpc]
        rfl
      exact hbooks.refuse hparcel
  | @pushFailed o index job checksum hpc hfails =>
      have hparcel : σ.view.parcel = .filled index job checksum := by
        change σ.main.parcel = _
        rw [hpc]
        rfl
      exact hbooks.refuse hparcel
  | @pushWait o index job checksum hpc hcount hopen =>
      have hparcel : σ.view.parcel = .filled index job checksum := Main.parcel_of_pushes hpc
      exact hbooks.of_parcel hparcel
  | pushClosed hpc hclosed => exact hbooks.refuse (Main.parcel_of_pushes hpc)
  | @pushPut o index job checksum hpc hroom hopen =>
      have hput := hbooks.put (Main.parcel_of_pushes hpc) hroom
      have hcarry (i : Fin config.workers) :
          (notEmpty.signal σ.worker o.woken i).carry = (σ.worker i).carry :=
        carry_of_woken (notEmpty.signal_apply σ.worker o.woken i)
      have hsame : (fun i => (notEmpty.signal σ.worker o.woken i).carry) = σ.view.carry := funext hcarry
      rw [← hsame] at hput
      exact hput
  | @discard o job hpc hlive =>
      have hparcel : σ.view.parcel.block = {job} := by
        change σ.main.parcel.block = _
        rw [hpc]
        rfl
      exact hbooks.discard hparcel
  | @close o hpc =>
      have hview := view_closeSection σ o
      have hparcel : σ.view.parcel = .nothing := by
        change σ.main.parcel = _
        rw [hpc]
        rfl
      have hclosed : Books config (σ.closeSection o).view := hview ▸ hbooks
      exact hclosed.of_parcel (by rw [hview]; exact hparcel)
  | report hpc =>
      exfalso
      cases hjoined : σ.allJoined with
      | true =>
          rw [(h.reportRun hpc hjoined).1] at hafter
          cases hafter
      | false =>
          have hexit : σ.reportRun.main = .exited (statusExitCode σ.status) := by
            unfold State.reportRun
            rw [if_neg (by rw [hjoined]; exact Bool.false_ne_true)]
          rw [hexit] at hafter
          cases hafter
  | wakeWorker hpc =>
      rw [view_goto_same _ (by rw [hpc]; rfl)]
      exact hbooks
  | @wakeMain index job checksum hpc =>
      have hparcel : σ.view.parcel = .filled index job checksum := by
        change σ.main.parcel = _
        rw [hpc]
        rfl
      exact hbooks.of_parcel hparcel

/-! ### What the workers know -/

theorem Worker.Fine.mono {worker : Worker} {drained drained' : Prop} {queueError queueError' : Bool}
    (h : worker.Fine drained queueError) (hdrained : drained → drained')
    (herror : queueError = true → queueError' = true) : worker.Fine drained' queueError' := by
  cases worker with
  | flush | exited => exact h.imp herror hdrained
  | close => exact herror h
  | fault => exact h
  | _ => trivial

def State.WorkersFine {workers : Nat} (σ : State workers) : Prop :=
  ∀ i, (σ.worker i).Fine σ.queue.Drained (σ.result i).queueError

section WorkersFine

variable {workers : Nat} {τ : State workers}

theorem State.WorkersFine.goto (h : τ.WorkersFine) {i : Fin workers} {worker : Worker}
    (hworker : worker.Fine τ.queue.Drained (τ.result i).queueError) : (τ.goto i worker).WorkersFine := by
  intro j
  by_cases hj : j = i
  · subst hj
    simpa only [State.goto, Function.update_self] using hworker
  · simpa only [State.goto, Function.update_of_ne hj] using h j

theorem State.WorkersFine.setResult (h : τ.WorkersFine) {i : Fin workers} {result : WorkerResult}
    (herror : (τ.result i).queueError = true → result.queueError = true) : (τ.setResult i result).WorkersFine := by
  intro j
  by_cases hj : j = i
  · subst hj
    simpa only [State.setResult, Function.update_self] using (h j).mono id herror
  · simpa only [State.setResult, Function.update_of_ne hj] using h j

theorem State.WorkersFine.popError (h : τ.WorkersFine) {i : Fin workers} : (τ.popError i).WorkersFine := by
  refine (h.setResult fun _ => rfl).goto ?_
  simp only [State.setResult, Function.update_self]
  rfl

theorem State.WorkersFine.takeFront (h : τ.WorkersFine) : τ.takeFront.WorkersFine := by
  intro j
  refine (h j).mono (fun hdrained => ⟨hdrained.1, ?_⟩) id
  change τ.queue.ring.count - 1 = 0
  rw [hdrained.2]

theorem fine_of_woken {worker worker' : Worker} {drained : Prop} {queueError : Bool}
    (h : worker.Fine drained queueError)
    (hwoken : worker' = worker ∨ notEmpty.waits worker = true ∧ worker' = notEmpty.wake worker) :
    worker'.Fine drained queueError := by
  rcases hwoken with rfl | ⟨-, rfl⟩
  · exact h
  · trivial

theorem closeSection_woken (o : Outcome workers) (j : Fin workers) :
    (τ.closeSection o).worker j = τ.worker j ∨
      notEmpty.waits (τ.worker j) = true ∧ (τ.closeSection o).worker j = notEmpty.wake (τ.worker j) := by
  unfold State.closeSection State.unlock
  cases o.emptyBroadcastFails with
  | true => exact .inl rfl
  | false => exact notEmpty.broadcast_apply τ.worker j

theorem State.WorkersFine.closeSection (h : τ.WorkersFine) (o : Outcome workers) : (τ.closeSection o).WorkersFine := by
  intro j
  exact Worker.Fine.mono (fine_of_woken (h j) (closeSection_woken o j)) (fun hdrained => ⟨rfl, hdrained.2⟩) id

end WorkersFine

theorem Inv.workers_step (h : Inv config σ) (hstep : Step config σ event σ') (hbefore : σ.main.returned = false) :
    σ'.WorkersFine := by
  have hfine : σ.WorkersFine := h.workers
  have hbooks := h.books hbefore
  cases hstep with
  | popRefused hpc hfails => exact hfine.popError
  | popFailed hpc hfails => exact State.WorkersFine.popError (τ := σ.unlock _) hfine
  | popWait hpc hcount hopen => exact hfine.goto trivial
  | popDrained hpc hcount hclosed => exact State.WorkersFine.goto (τ := σ.unlock _) hfine (.inr ⟨hclosed, hcount⟩)
  | popNull hpc hcount hfront => exact absurd hfront (hbooks.front_live hcount)
  | popTake hpc hcount hfront =>
      exact State.WorkersFine.goto (τ := (σ.takeFront.signalNotFull _).unlock _) hfine.takeFront trivial
  | mark hpc hlive =>
      rw [hbooks.markJob_eq h.produced_le hpc hlive]
      exact State.WorkersFine.goto (τ := { σ with seen := _ }) hfine trivial
  | verify hpc hlive =>
      rw [hbooks.verifyJob_eq hpc hlive]
      refine State.WorkersFine.goto (hfine.setResult ?_) trivial
      exact id
  | release hpc hlive => exact State.WorkersFine.goto (τ := { σ with store := _ }) hfine trivial
  | workerFault hjob hdead =>
      have hlive := hbooks.worker_live hjob
      rw [hdead] at hlive
      cases hlive
  | @workerCloseRefused i o hpc hfails =>
      have hclose := hfine i
      rw [hpc] at hclose
      exact hfine.goto (.inl hclose)
  | @workerClose i o hpc =>
      have hclose := hfine i
      rw [hpc] at hclose
      exact (hfine.closeSection o).goto (.inl hclose)
  | @flush i o hpc =>
      have hflush := hfine i
      rw [hpc] at hflush
      exact hfine.goto hflush
  | create hindex hpc hfail hcreated => exact State.WorkersFine.goto (τ := σ) hfine trivial
  | @pushPut o index job checksum hpc hroom hopen =>
      intro j
      refine Worker.Fine.mono (fine_of_woken (hfine j) (notEmpty.signal_apply σ.worker o.woken j)) ?_ id
      intro hdrained
      exact absurd (hopen.symm.trans hdrained.1) Bool.false_ne_true
  | close hpc => exact hfine.closeSection _
  | report hpc =>
      unfold State.reportRun
      split
      · split
        · exact hfine
        next ring store hrelease =>
          intro j
          have hdone : (σ.worker j).Fine σ.queue.Drained (σ.result j).queueError := hfine j
          refine hdone.mono (fun hdrained => ?_) id
          have hsame : (ring, store) = (σ.queue.ring, σ.store) := by
            rw [hdrained.2] at hrelease
            exact (Option.some.inj hrelease).symm
          exact ⟨hdrained.1, by rw [(Prod.mk.inj hsame).1]; exact hdrained.2⟩
      · exact hfine
  | wakeWorker hpc => exact hfine.goto trivial
  | _ => exact hfine

/-! ### What `main` knows -/

/-- A step of a worker, as far as `main` is concerned. -/
structure WorkerMove {workers : Nat} (σ τ : State workers) : Prop where
  started : τ.workersStarted = σ.workersStarted
  produced : τ.jobsProduced = σ.jobsProduced
  status : τ.status = σ.status
  allJoined : τ.allJoined = σ.allJoined
  main : τ.main = σ.main ∨ τ.main = σ.main.wake
  exited : ∀ i, σ.worker i = .exited → τ.worker i = .exited
  absent : ∀ i, τ.worker i = .absent ↔ σ.worker i = .absent

section WorkerMove

variable {workers : Nat} {σ τ : State workers}

/-- Neither a thread nor `main`'s variables change. -/
theorem workerMove_frame (hworker : τ.worker = σ.worker) (hmain : τ.main = σ.main)
    (hstarted : τ.workersStarted = σ.workersStarted) (hproduced : τ.jobsProduced = σ.jobsProduced)
    (hstatus : τ.status = σ.status) (hjoined : τ.allJoined = σ.allJoined) : WorkerMove σ τ :=
  ⟨hstarted, hproduced, hstatus, hjoined, .inl hmain, fun i h => by rw [hworker]; exact h,
    fun i => by rw [hworker]⟩

theorem WorkerMove.refl (σ : State workers) : WorkerMove σ σ :=
  workerMove_frame rfl rfl rfl rfl rfl rfl

theorem WorkerMove.goto (h : WorkerMove σ τ) {i : Fin workers} {worker : Worker}
    (hbefore : σ.worker i ≠ .absent ∧ σ.worker i ≠ .exited) (hafter : worker ≠ .absent) :
    WorkerMove σ (τ.goto i worker) := by
  refine ⟨h.started, h.produced, h.status, h.allJoined, h.main, fun j hexited => ?_, fun j => ?_⟩
  · have hj : j ≠ i := fun heq => hbefore.2 (heq ▸ hexited)
    exact (Function.update_of_ne hj _ _).trans (h.exited j hexited)
  · by_cases hj : j = i
    · subst hj
      simp only [State.goto, Function.update_self]
      exact iff_of_false hafter hbefore.1
    · simp only [State.goto, Function.update_of_ne hj]
      exact h.absent j

theorem WorkerMove.popError (h : WorkerMove σ τ) {i : Fin workers}
    (hbefore : σ.worker i ≠ .absent ∧ σ.worker i ≠ .exited) : WorkerMove σ (τ.popError i) := by
  have hresult : WorkerMove σ (τ.setResult i { τ.result i with queueError := true }) :=
    ⟨h.started, h.produced, h.status, h.allJoined, h.main, h.exited, h.absent⟩
  exact hresult.goto hbefore nofun

theorem workerMove_take (σ : State workers) (o : Outcome workers) :
    WorkerMove σ ((σ.takeFront.signalNotFull o).unlock o) := by
  refine ⟨rfl, rfl, rfl, rfl, ?_, fun _ h => h, fun _ => Iff.rfl⟩
  unfold State.signalNotFull State.unlock
  cases o.signalFails with
  | true => exact .inl rfl
  | false => exact .inr rfl

theorem workerMove_close (σ : State workers) (o : Outcome workers) : WorkerMove σ (σ.closeSection o) := by
  refine ⟨rfl, rfl, rfl, rfl, ?_, fun i hexited => ?_, fun i => ?_⟩
  · unfold State.closeSection State.unlock
    cases o.fullBroadcastFails with
    | true => exact .inl rfl
    | false => exact .inr rfl
  · rcases closeSection_woken (τ := σ) o i with hsame | ⟨hwaits, -⟩
    · exact hsame.trans hexited
    · rw [hexited] at hwaits
      cases hwaits
  · rcases closeSection_woken (τ := σ) o i with hsame | ⟨hwaits, hwoken⟩
    · rw [hsame]
    · rw [hwoken]
      refine iff_of_false nofun fun habsent => ?_
      rw [habsent] at hwaits
      cases hwaits

theorem workerMove_mark (config : Configuration) (σ : State workers) (i : Fin workers) (contents : Job) :
    WorkerMove σ (σ.markJob config i contents) := by
  unfold State.markJob
  split
  · exact workerMove_frame rfl rfl rfl rfl rfl rfl
  · split <;> exact workerMove_frame rfl rfl rfl rfl rfl rfl

end WorkerMove

theorem Worker.live_of_pops {worker : Worker} (hpc : worker.pops) : worker ≠ .absent ∧ worker ≠ .exited := by
  rcases hpc with rfl | rfl <;> exact ⟨nofun, nofun⟩

theorem Worker.live_of_job {worker : Worker} {job : Nat} (hjob : worker.job = some job) :
    worker ≠ .absent ∧ worker ≠ .exited := by
  constructor <;> rintro rfl <;> cases hjob

theorem Step.workerMove {i : Fin config.workers} {o : Outcome config.workers}
    (hstep : Step config σ (.worker i o) σ') : WorkerMove σ σ' := by
  have hself := WorkerMove.refl σ
  have hunlock : WorkerMove σ (σ.unlock o) := workerMove_frame rfl rfl rfl rfl rfl rfl
  cases hstep with
  | popRefused hpc => exact hself.popError (by rw [hpc]; exact ⟨nofun, nofun⟩)
  | popFailed hpc => exact hunlock.popError (by rw [hpc]; exact ⟨nofun, nofun⟩)
  | popWait hpc => exact hself.goto (Worker.live_of_pops hpc) nofun
  | popDrained hpc => exact hunlock.goto (Worker.live_of_pops hpc) nofun
  | popNull hpc => exact (workerMove_take σ o).goto (Worker.live_of_pops hpc) nofun
  | popTake hpc => exact (workerMove_take σ o).goto (Worker.live_of_pops hpc) nofun
  | mark hpc => exact (workerMove_mark config σ i _).goto (by rw [hpc]; exact ⟨nofun, nofun⟩) nofun
  | @verify _ _ _ contents hpc =>
      have hverify : WorkerMove σ (σ.verifyJob i contents) := workerMove_frame rfl rfl rfl rfl rfl rfl
      exact hverify.goto (by rw [hpc]; exact ⟨nofun, nofun⟩) nofun
  | @release _ _ job hpc =>
      have hrelease : WorkerMove σ { σ with store := Function.update σ.store job none } :=
        workerMove_frame rfl rfl rfl rfl rfl rfl
      exact hrelease.goto (by rw [hpc]; exact ⟨nofun, nofun⟩) nofun
  | workerFault hjob => exact hself.goto (Worker.live_of_job hjob) nofun
  | workerCloseRefused hpc => exact hself.goto (by rw [hpc]; exact ⟨nofun, nofun⟩) nofun
  | workerClose hpc => exact (workerMove_close σ o).goto (by rw [hpc]; exact ⟨nofun, nofun⟩) nofun
  | flush hpc => exact hself.goto (by rw [hpc]; exact ⟨nofun, nofun⟩) nofun

theorem Step.workerMove_wake {i : Fin config.workers} (hstep : Step config σ (.wakeWorker i) σ') :
    WorkerMove σ σ' := by
  cases hstep with
  | wakeWorker hpc => exact (WorkerMove.refl σ).goto (by rw [hpc]; exact ⟨nofun, nofun⟩) nofun

theorem Main.At.move {main : Main} (h : main.At σ) (hmove : WorkerMove σ σ') (hrunning : main.returned = false) :
    main.At σ' := by
  cases main with
  | refused => trivial
  | fault => exact h
  | setup | create | produce | fill | push | wait | retry | discard | close =>
      simpa only [Main.At, State.Complete, hmove.started, hmove.produced, hmove.status] using h
  | join index =>
      obtain ⟨hindex, hok, hexited⟩ := h
      refine ⟨hmove.started ▸ hindex, ?_, fun hjoined i hi => ?_⟩
      · simpa only [State.Complete, hmove.started, hmove.produced, hmove.status] using hok
      · exact hmove.exited i (hexited (hmove.allJoined ▸ hjoined) i hi)
  | report =>
      obtain ⟨hok, hexited⟩ := h
      refine ⟨?_, fun hjoined i hi => ?_⟩
      · simpa only [State.Complete, hmove.started, hmove.produced, hmove.status] using hok
      · exact hmove.exited i (hexited (hmove.allJoined ▸ hjoined) i (hmove.started ▸ hi))
  | exited => cases hrunning

theorem Main.At.wake {main : Main} (h : main.At σ) : main.wake.At σ := by
  cases main <;> exact h

/-- A step of a worker keeps what `main` knows. -/
theorem Inv.of_workerMove (h : Inv config σ) (hmove : WorkerMove σ σ') (hrunning : σ.main.returned = false)
    (hbooks : σ'.main.returned = false → Books config σ'.view) (hworkers : σ'.WorkersFine) : Inv config σ' where
  books := hbooks
  workers := hworkers
  absent i := by rw [hmove.absent, hmove.started, h.absent]
  started_le := hmove.started ▸ h.started_le
  produced_le := hmove.produced ▸ h.produced_le
  produced_started hne := by
    rw [hmove.produced] at hne
    rw [hmove.started]
    exact h.produced_started hne
  undecided _ := hmove.status ▸ h.undecided hrunning
  main := by
    have hmain := h.main.move hmove hrunning
    rcases hmove.main with hsame | hwoken
    · rw [hsame]
      exact hmain
    · rw [hwoken]
      exact hmain.wake

/-- A step of `main` that neither creates a worker nor adds a job to the queue. -/
theorem Inv.of_main (h : Inv config σ) (hstep : Step config σ event σ') (hrunning : σ.main.returned = false)
    (habsent : ∀ i, σ'.worker i = .absent ↔ σ.worker i = .absent) (hstarted : σ'.workersStarted = σ.workersStarted)
    (hproduced : σ'.jobsProduced = σ.jobsProduced)
    (hundecided : σ'.main.returned = false → σ'.status ≠ .dataFailure) (hmain : σ'.main.At σ') : Inv config σ' where
  books hafter := h.books_step hstep hrunning hafter
  workers := h.workers_step hstep hrunning
  absent i := by rw [habsent, hstarted, h.absent]
  started_le := hstarted ▸ h.started_le
  produced_le := hproduced ▸ h.produced_le
  produced_started hne := by
    rw [hproduced] at hne
    rw [hstarted]
    exact h.produced_started hne
  undecided := hundecided
  main := hmain

theorem Inv.create_step (h : Inv config σ) (hrunning : σ.main.returned = false) {o : Outcome config.workers}
    {index : Nat} (hindex : index < config.workers) (hpc : σ.main = .create index)
    (hfail : config.failThreadAt ≠ index + 1) (hcreated : o.createFails = false) :
    Inv config
      { σ.goto ⟨index, hindex⟩ .pop with
        workersStarted := σ.workersStarted + 1
        main := .create (index + 1) } := by
  have hstep := Step.create (o := o) hindex hpc hfail hcreated
  have hmain := h.main
  rw [hpc] at hmain
  obtain ⟨rfl, hproduced, hstatus⟩ := hmain
  exact
    { books := fun hafter => h.books_step hstep hrunning hafter
      workers := h.workers_step hstep hrunning
      absent := fun i => by
        by_cases hi : i = ⟨σ.workersStarted, hindex⟩
        · subst hi
          simp [State.goto]
        · have hne : i.val ≠ σ.workersStarted := fun heq => hi (Fin.ext heq)
          simp only [State.goto, Function.update_of_ne hi, h.absent i]
          omega
      started_le := hindex
      produced_le := h.produced_le
      produced_started := fun hne => absurd hproduced hne
      undecided := fun _ => h.undecided hrunning
      main := ⟨rfl, hproduced, hstatus⟩ }

theorem Inv.put_step (h : Inv config σ) (hrunning : σ.main.returned = false) {o : Outcome config.workers}
    {index job : Nat} {checksum : UInt64} (hpc : σ.main.pushes index job checksum)
    (hroom : σ.queue.ring.count ≠ σ.queue.ring.capacity) (hopen : σ.queue.closed = false) :
    Inv config
      { σ.unlock o with
        queue.ring := σ.queue.ring.push (some job)
        worker := notEmpty.signal σ.worker o.woken
        expectedChecksum := σ.expectedChecksum + checksum
        jobsProduced := σ.jobsProduced + 1
        main := .produce (index + 1) } := by
  have hstep := Step.pushPut (o := o) hpc hroom hopen
  have hmain : index = σ.jobsProduced ∧ index < config.jobs ∧ σ.workersStarted = config.workers ∧ σ.status = .ok := by
    have hat := h.main
    rcases hpc with hpc | hpc <;> rw [hpc] at hat <;> exact hat
  obtain ⟨rfl, hlt, hstarted, hstatus⟩ := hmain
  exact
    { books := fun hafter => h.books_step hstep hrunning hafter
      workers := h.workers_step hstep hrunning
      absent := fun i => by
        refine Iff.trans ?_ (h.absent i)
        rcases notEmpty.signal_apply σ.worker o.woken i with hsame | ⟨hwaits, hwoken⟩
        · exact Eq.congr_left hsame
        · refine iff_of_false (fun habsent => ?_) (fun habsent => ?_)
          · exact absurd (hwoken.symm.trans habsent) nofun
          · rw [habsent] at hwaits
            cases hwaits
      started_le := h.started_le
      produced_le := hlt
      produced_started := fun _ => hstarted
      undecided := fun _ => h.undecided hrunning
      main := ⟨rfl, hlt, hstarted, hstatus⟩ }

theorem Inv.main_step (h : Inv config σ) (hrunning : σ.main.returned = false) {o : Outcome config.workers}
    (hstep : Step config σ (.main o) σ') : Inv config σ' := by
  have hundecided := h.undecided hrunning
  have hmain := h.main
  have hbooks := h.books hrunning
  have hdo := h.of_main hstep hrunning
  cases hstep with
  | create hindex hpc hfail hcreated => exact h.create_step hrunning hindex hpc hfail hcreated
  | pushPut hpc hroom hopen => exact h.put_step hrunning hpc hroom hopen
  | mainFault hjob hdead =>
      have hlive := hbooks.main_live hjob
      rw [hdead] at hlive
      cases hlive
  | setup hpc =>
      rw [hpc] at hmain
      exact hdo (fun _ => Iff.rfl) rfl rfl (fun _ => hundecided) ⟨hmain.1.symm, hmain.2⟩
  | setupRefused hpc => exact hdo (fun _ => Iff.rfl) rfl rfl (fun _ => hundecided) trivial
  | createRefused hindex hpc => exact hdo (fun _ => Iff.rfl) rfl rfl (fun _ => nofun) nofun
  | createdAll hpc hindex =>
      rw [hpc] at hmain
      have hall : σ.workersStarted = config.workers := Nat.le_antisymm h.started_le (hmain.1 ▸ hindex)
      exact hdo (fun _ => Iff.rfl) rfl rfl (fun _ => hundecided) ⟨hmain.2.1.symm, Nat.zero_le _, hall, hmain.2.2⟩
  | producedAll hpc =>
      rw [hpc] at hmain
      exact hdo (fun _ => Iff.rfl) rfl rfl (fun _ => hundecided) fun _ => ⟨hmain.1.symm, hmain.2.2.1⟩
  | injected hpc | oversized hpc | unallocated hpc =>
      exact hdo (fun _ => Iff.rfl) rfl rfl (fun _ => nofun) nofun
  | allocate hpc hindex hfail hfresh =>
      rw [hpc] at hmain
      exact hdo (fun _ => Iff.rfl) rfl rfl (fun _ => hundecided)
        ⟨hmain.1, lt_of_le_of_ne hmain.2.1 hindex, hmain.2.2⟩
  | fill hpc hlive =>
      rw [hpc] at hmain
      exact hdo (fun _ => Iff.rfl) rfl rfl (fun _ => hundecided) hmain
  | pushRefused hpc | pushFailed hpc =>
      rw [hpc] at hmain
      exact hdo (fun _ => Iff.rfl) rfl rfl (fun _ => hundecided) hmain.2.2.2
  | pushWait hpc hcount hopen =>
      refine hdo (fun _ => Iff.rfl) rfl rfl (fun _ => hundecided) ?_
      rcases hpc with hpc | hpc <;> rw [hpc] at hmain <;> exact hmain
  | pushClosed hpc hclosed =>
      refine hdo (fun _ => Iff.rfl) rfl rfl (fun _ => hundecided) ?_
      rcases hpc with hpc | hpc <;> rw [hpc] at hmain <;> exact hmain.2.2.2
  | discard hpc hlive => exact hdo (fun _ => Iff.rfl) rfl rfl (fun _ => nofun) nofun
  | closeRefused hpc hfails =>
      rw [hpc] at hmain
      refine hdo (fun _ => Iff.rfl) rfl rfl (fun _ => ?_)
        ⟨Nat.zero_le _, fun hok => ?_, fun _ i hi => absurd hi (by simp)⟩
      · simp only
        split
        · exact nofun
        · exact hundecided
      · simp only at hok
        split at hok
        · cases hok
        · exact hmain hok
  | close hpc =>
      rw [hpc] at hmain
      refine hdo (workerMove_close σ o).absent rfl rfl (fun _ => ?_)
        ⟨Nat.zero_le _, fun hok => ?_, fun _ i hi => absurd hi (by simp)⟩
      · simp only
        split
        · exact nofun
        · exact hundecided
      · simp only at hok
        split at hok
        · cases hok
        · exact hmain hok
  | joinedAll hpc =>
      rw [hpc] at hmain
      exact hdo (fun _ => Iff.rfl) rfl rfl (fun _ => hundecided) hmain.2
  | @joinFailed _ index hpc hindex hfails =>
      rw [hpc] at hmain
      refine hdo (fun _ => Iff.rfl) rfl rfl (fun _ => nofun) ⟨?_, nofun, nofun⟩
      exact lt_of_le_of_ne hmain.1 hindex
  | @join _ index hpc hindex hlt hexited =>
      rw [hpc] at hmain
      refine hdo (fun _ => Iff.rfl) rfl rfl (fun _ => hundecided)
        ⟨lt_of_le_of_ne hmain.1 hindex, hmain.2.1, fun hjoined i hi => ?_⟩
      rcases Nat.lt_succ_iff_lt_or_eq.mp hi with hbefore | hlast
      · exact hmain.2.2 hjoined i hbefore
      · rw [show i = ⟨index, hlt⟩ from Fin.ext hlast]
        exact hexited
  | report hpc =>
      rw [hpc] at hmain
      cases hjoined : σ.allJoined with
      | true =>
          obtain ⟨hexit, haccounted⟩ := h.reportRun hpc hjoined
          have hframe : σ.reportRun.worker = σ.worker ∧ σ.reportRun.workersStarted = σ.workersStarted ∧
              σ.reportRun.jobsProduced = σ.jobsProduced := by
            unfold State.reportRun
            rw [if_pos hjoined]
            cases State.releaseRemaining σ.queue.ring.count σ.queue.ring σ.store <;> exact ⟨rfl, rfl, rfl⟩
          refine hdo (fun i => by rw [hframe.1]) hframe.2.1 hframe.2.2 (fun hafter => ?_) ?_
          · rw [hexit] at hafter
            cases hafter
          · rw [hexit]
            exact ⟨rfl, fun _ => haccounted⟩
      | false =>
          have hreport : σ.reportRun = { σ with main := .exited (statusExitCode σ.status) } := by
            unfold State.reportRun
            rw [if_neg (by rw [hjoined]; exact Bool.false_ne_true)]
          rw [hreport] at hdo ⊢
          refine hdo (fun _ => Iff.rfl) rfl rfl (fun _ => hundecided) ⟨rfl, fun htrue => ?_⟩
          exact absurd (hjoined.symm.trans htrue) Bool.false_ne_true

/-- Whatever happens keeps the invariant. -/
theorem Inv.perform (h : Inv config σ) (hstep : σ.perform config event = some σ') : Inv config σ' := by
  obtain ⟨hrunning, hstep⟩ := perform_step hstep
  cases event with
  | worker i o =>
      exact h.of_workerMove hstep.workerMove hrunning (h.books_step hstep hrunning) (h.workers_step hstep hrunning)
  | wakeWorker i =>
      exact h.of_workerMove hstep.workerMove_wake hrunning (h.books_step hstep hrunning)
        (h.workers_step hstep hrunning)
  | main o => exact h.main_step hrunning hstep
  | wakeMain =>
      have hdo := h.of_main hstep hrunning
      have hundecided := h.undecided hrunning
      have hmain := h.main
      cases hstep with
      | wakeMain hpc =>
          rw [hpc] at hmain
          exact hdo (fun _ => Iff.rfl) rfl rfl (fun _ => hundecided) hmain

end Hplf.Pool
