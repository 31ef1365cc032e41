import BajaDaq.WheelSimulator
import BajaDaq.EngineSimulator

/-!
# The last word of a manual command

Both simulators let the sweep task ask for its generation and set the speed later, and both set
the speed to zero after a sweep without asking. A manual command therefore stands only if the
sweep tasks hold no other speed at the moment it is completed.
-/

namespace BajaDaq.ManualCommands

open TransitionRuns PendingWrites

/-- In every run of the two simulators, and for every manual command completed in it: the output
stays at the commanded speed until the next sweep or manual command if and only if no sweep task is
about to set another speed without asking for its generation again. For the engine this holds from
any state, reachable or not. -/
theorem manual_command_last_word (early : ℕ) {as : List WheelSimulator.Label}
    {s t : WheelSimulator.Simulator} {a : WheelSimulator.Label} {v : Int32}
    (hrun : Run WheelSimulator.step Free (.start early) as s)
    (hs : WheelSimulator.step s a = some t) (hv : WheelSimulator.commanded s a = some v)
    {s' t' : EngineSimulator.Simulator} {a' : EngineSimulator.Label} {v' : UInt32}
    (hs' : EngineSimulator.step s' a' = some t')
    (hv' : EngineSimulator.commanded s' a' = some v') :
    (Stays WheelSimulator.step WheelSimulator.Quiet WheelSimulator.Simulator.rpm t v ↔
      ∀ w ∈ s.sweepTask.pendingWrites, w = v) ∧
    (Stays EngineSimulator.step EngineSimulator.Quiet EngineSimulator.Simulator.rpm t' v' ↔
      ∀ w ∈ s'.pendingWrites, w = v') :=
  ⟨WheelSimulator.last_word_iff (WheelSimulator.sound_run hrun) hs hv,
    EngineSimulator.last_word_iff hs' hv'⟩

/-- The wheel at the only speed of a sweep, with the section of a manual command done. -/
def wheelDwell (command : WheelSimulator.Command) : List WheelSimulator.Label :=
  [.command (.sweep 100 100 1 1000), .console, .sweepTask, .sweepTask, .sweepTask,
    .command command]

/-- The engine after `steps` steps of a sweep. -/
def engineSweep (steps : ℕ) : List EngineSimulator.Label :=
  [.command .sweep, .create true] ++ List.replicate steps (.sweepTask 0)

/-- A stop in the final dwell of the wheel stands, and so does a speed that is given to the engine
in an earlier dwell. -/
theorem manual_command_last_word_runs :
    (∃ s t, WheelSimulator.step s .console = some t ∧
      WheelSimulator.commanded s .console = some 0 ∧
      Stays WheelSimulator.step WheelSimulator.Quiet WheelSimulator.Simulator.rpm t 0) ∧
    ∃ s t, EngineSimulator.step s (.command (.rpm 2000)) = some t ∧
      EngineSimulator.commanded s (.command (.rpm 2000)) = some 2000 ∧
      Stays EngineSimulator.step EngineSimulator.Quiet EngineSimulator.Simulator.rpm t 2000 := by
  have hwheel : ((exec WheelSimulator.step (.start 0) (wheelDwell .stop)).bind fun s =>
      (WheelSimulator.step s .console).map fun _ =>
        (WheelSimulator.commanded s .console, s.sweepTask.pendingWrites)) =
      some (some 0, [0]) := by
    decide +kernel
  have hengine : ((exec EngineSimulator.step .start (engineSweep 5)).bind fun s =>
      (EngineSimulator.step s (.command (.rpm 2000))).map fun _ =>
        (EngineSimulator.commanded s (.command (.rpm 2000)), s.pendingWrites)) =
      some (some 2000, []) := by
    decide +kernel
  obtain ⟨s, t, hrun, hs, hf⟩ := exists_step_of_exec _ hwheel
  obtain ⟨s', t', -, hs', hf'⟩ := exists_step_of_exec _ hengine
  obtain ⟨hv, hpending⟩ := Prod.mk.inj hf
  obtain ⟨hv', hpending'⟩ := Prod.mk.inj hf'
  obtain ⟨hwheel, hengine⟩ := manual_command_last_word 0 hrun hs hv hs' hv'
  refine ⟨⟨s, t, hs, hv, hwheel.mpr ?_⟩, ⟨s', t', hs', hv', hengine.mpr ?_⟩⟩
  · rw [hpending]
    exact fun _ hw => List.mem_singleton.mp hw
  · rw [hpending']
    exact nofun

/-- In the final dwell of a sweep a speed is commanded, and the task sets the output to zero. -/
theorem manual_command_overridden :
    (∃ s t, Run WheelSimulator.step Free (.start 0) (wheelDwell (.rpm 500)) s ∧
      WheelSimulator.step s .console = some t ∧
      WheelSimulator.commanded s .console = some 500 ∧
      ¬ Stays WheelSimulator.step WheelSimulator.Quiet WheelSimulator.Simulator.rpm t 500) ∧
    ∃ s t, Run EngineSimulator.step Free .start (engineSweep 98) s ∧
      EngineSimulator.step s (.command (.rpm 2000)) = some t ∧
      EngineSimulator.commanded s (.command (.rpm 2000)) = some 2000 ∧
      ¬ Stays EngineSimulator.step EngineSimulator.Quiet EngineSimulator.Simulator.rpm t 2000 := by
  constructor
  · have hexec : ((exec WheelSimulator.step (.start 0) (wheelDwell (.rpm 500))).bind fun s =>
        (WheelSimulator.step s .console).map fun t =>
          (WheelSimulator.commanded s .console,
            (exec (Run.guarded WheelSimulator.step WheelSimulator.Quiet) t
              [.sweepTask, .sweepTask, .sweepTask]).map WheelSimulator.Simulator.rpm)) =
        some (some 500, some 0) := by
      decide +kernel
    obtain ⟨s, t, hrun, hs, hf⟩ := exists_step_of_exec _ hexec
    obtain ⟨hv, hquiet⟩ := Prod.mk.inj hf
    exact ⟨s, t, hrun, hs, hv, not_stays_of_exec hquiet (by decide)⟩
  · have hexec : ((exec EngineSimulator.step .start (engineSweep 98)).bind fun s =>
        (EngineSimulator.step s (.command (.rpm 2000))).map fun t =>
          (EngineSimulator.commanded s (.command (.rpm 2000)),
            (exec (Run.guarded EngineSimulator.step EngineSimulator.Quiet) t
              [.sweepTask 0, .sweepTask 0, .sweepTask 0]).map EngineSimulator.Simulator.rpm)) =
        some (some 2000, some 0) := by
      decide +kernel
    obtain ⟨s, t, hrun, hs, hf⟩ := exists_step_of_exec _ hexec
    obtain ⟨hv, hquiet⟩ := Prod.mk.inj hf
    exact ⟨s, t, hrun, hs, hv, not_stays_of_exec hquiet (by decide)⟩

end BajaDaq.ManualCommands
