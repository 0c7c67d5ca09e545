import MySkipList.Proof.SkipList.Persistence
import MySkipList.Proof.Server.Steps
import MySkipList.Proof.Timer

namespace MySkipList

open Foundation

namespace SkipList
variable {K V : Type} [LinearOrder K] [LinearOrder V] {list : SkipList K V}

/-- The list shows a coherent view. -/
def Sound (list : SkipList K V) : Prop := ∃ head towers view, list.Shows head towers view ∧ view.Coherent

theorem new_sound [Inhabited K] (maxLevel : Nat) (positive : 0 < maxLevel) (maxCapacity : Int) (uninitialized : V) :
    ∃ list : SkipList K V, new maxLevel maxCapacity uninitialized = .ok list ∧ list.Sound := by
  obtain ⟨list, constructed, _, shown⟩ := new_shows (K := K) positive maxCapacity uninitialized
  exact ⟨list, constructed, _, _, _, shown, newView_coherent maxCapacity⟩

/-- Every operation on a sound list returns a sound list. -/
theorem Sound.operate (sound : list.Sound) (toInt : V → Int) (operation : Operation K V) :
    ∃ result next, list.operate toInt operation = .ok (result, next) ∧ next.Sound := by
  obtain ⟨head, towers, view, shown, coherent⟩ := sound
  obtain ⟨next, rest, returned, still, _⟩ := shown.operate coherent.toTracked toInt operation
  exact ⟨_, next, returned, head, rest, _, still, coherent.operate toInt list.maxLevel operation⟩

theorem Sound.of_operate (sound : list.Sound) (toInt : V → Int) (operation : Operation K V) {result : Int}
    {next : SkipList K V} (returned : list.operate toInt operation = .ok (result, next)) : next.Sound := by
  obtain ⟨other, final, operated, kept⟩ := sound.operate toInt operation
  obtain ⟨_, rfl⟩ := Prod.mk.inj (Except.ok.inj (operated.symm.trans returned))
  exact kept

theorem Sound.displayList (sound : list.Sound) : ∃ printed, list.displayList = .ok printed := by
  obtain ⟨head, towers, view, shown, _⟩ := sound
  exact shown.represents.displayList

theorem Sound.save {list : SkipList Str CInt} (sound : list.Sound) : ∃ written, list.save = .ok written := by
  obtain ⟨head, towers, view, shown, _⟩ := sound
  exact ⟨_, by rw [SkipList.save, shown.members]; rfl⟩

end SkipList

namespace Server
variable {server next : Server}

/-- The sets are sound, the deadlines are linked, and the configured maximum is not negative. -/
structure Sound (server : Server) : Prop where
  sets : ∀ key list, server.map.lookup key = some list → list.Sound
  pending : ∃ deadlines, server.timer.Represents deadlines
  accepted : 0 ≤ server.configs.maxMemory

theorem new_sound : Server.new.Sound where
  sets key list found := by simp [Server.new] at found
  pending := ⟨[], Timer.new_represents⟩
  accepted := le_rfl

theorem Operated.sound {list final : SkipList Str CInt} (operated : Operated list final) (sound : list.Sound) :
    final.Sound := by
  cases operated with
  | kept => exact sound
  | @inserted ele score draws result _ returned =>
      exact sound.of_operate Subtype.val (.insertElement ele score draws) returned
  | @deleted ele result _ returned =>
      exact sound.of_operate Subtype.val (.deleteElement ele) returned
  | @searched ele result _ returned =>
      exact sound.of_operate Subtype.val (.searchElement ele) returned

theorem Located.sound {request : Request} {key : Str} {list : SkipList Str CInt}
    (located : Located server request key list) (sound : server.Sound) : list.Sound := by
  cases located with
  | present found => exact sound.sets key list found
  | created _ _ constructed =>
      obtain ⟨other, made, fresh⟩ := SkipList.new_sound (K := Str) maxLevel (by decide)
        server.configs.maxMemory request.uninitialized
      obtain rfl : other = list := Except.ok.inj (made.symm.trans constructed)
      exact fresh

theorem Configs.setMaxMemory_accepted (configs : Configs) (maxMemory : Int) (accepted : 0 ≤ configs.maxMemory) :
    0 ≤ (configs.setMaxMemory maxMemory).2.maxMemory := by
  unfold Configs.setMaxMemory
  split
  · exact accepted
  · rename_i positive
    exact not_lt.mp positive

theorem Stepped.accepts {step : Step} (stepped : Stepped server step next) (accepted : 0 ≤ server.configs.maxMemory) :
    0 ≤ next.configs.maxMemory := by
  rcases stepped.configs with same | ⟨maxMemory, changed⟩
  · rwa [same]
  · rw [changed]
    exact Configs.setMaxMemory_accepted server.configs maxMemory accepted

/-- Every step that returns keeps the server sound. -/
theorem Sound.stepped {step : Step} (sound : server.Sound) (stepped : Stepped server step next) : next.Sound where
  sets key list found := by
    cases stepped.source found with
    | held found => exact sound.sets key list found
    | accessed _ _ located operated => exact operated.sound (located.sound sound)
    | reconfigured _ found set =>
        exact (sound.sets key _ found).of_operate Subtype.val (.setMaxMemory server.configs.maxMemory) set
  pending := by
    obtain ⟨deadlines, rep⟩ := sound.pending
    rcases stepped.timer with same | ⟨request, key, _, seconds, _, _, _, _, _, _, pushed⟩ | ⟨now, keys, ticked⟩
    · exact ⟨deadlines, same ▸ rep⟩
    · obtain ⟨final, returned, still⟩ := rep.push key seconds.val request.now
      obtain ⟨_, rfl⟩ := Prod.mk.inj (Except.ok.inj (pushed.symm.trans returned))
      exact ⟨_, still⟩
    · obtain ⟨final, returned, still⟩ := rep.tick now
      obtain ⟨_, rfl⟩ := Prod.mk.inj (Except.ok.inj (ticked.symm.trans returned))
      exact ⟨_, still⟩
  accepted := stepped.accepts sound.accepted

/-- Every reachable server is sound. -/
theorem reached_sound {steps : List Step} {responses : List Response}
    (reached : run step Server.new steps = .ok (responses, server)) : server.Sound :=
  run_invariant step Sound (fun _ _ _ _ sound returned => sound.stepped (step_stepped returned)) Server.new server
    steps responses new_sound reached

end Server

end MySkipList
