import EventMachine.Proof.Call
import EventMachine.Proof.Untimed

/-!
# References to a timer

Both registries refer to the event descriptor of a timer, which is a member of the timer. While the
timer is alive they do so under the number of its timerfd and nowhere else (`Filed`), whatever the
program does with its machines and its other timers. `SparingStep` is a step of such a program: it
neither creates nor destroys the timer again, and leaves its memory and its timerfd alone.
-/

namespace EventMachine

open Lib

variable {σ : Type}

/-! ## What a storage holds -/

/-- `view` says what a storage holds: insertions put what they are given under the number they are
given, if anything, and after a removal nothing is left under its number. -/
structure EMDescriptorStorage.Viewed (s : EMDescriptorStorage σ) (view : σ → Int → Option EDRef) :
    Prop where
  insert : ∀ f, s.insert = some f → ∀ fd p st, view (f fd p st).2 = view st ∨
    view (f fd p st).2 = Function.update (view st) fd (some p)
  remove : ∀ f, s.remove = some f → ∀ fd st,
    view (f fd st).2.2 = Function.update (view st) fd none

namespace EMDescriptorStorage.Viewed
variable {s : EMDescriptorStorage σ} {view : σ → Int → Option EDRef}

theorem insertEntry (h : s.Viewed view) {fd n : Int} {p ptr : EDRef} {st : σ}
    (hv : view (s.insertEntry fd p st).2 n = some ptr) :
    view st n = some ptr ∨ (n = fd ∧ ptr = p) := by
  rcases s.insertEntry_cases fd p st with heq | ⟨f, hf, heq⟩
  · rw [heq] at hv
    exact Or.inl hv
  · rw [heq] at hv
    rcases h.insert f hf fd p st with hview | hview
    · rw [hview] at hv
      exact Or.inl hv
    · rw [hview, Function.update_apply] at hv
      split at hv
      · next hn => exact Or.inr ⟨hn, (Option.some.inj hv).symm⟩
      · exact Or.inl hv

theorem removeEntry (h : s.Viewed view) {fd n : Int} {ptr : EDRef} {st : σ}
    (hv : view (s.removeEntry fd st).2.2 n = some ptr) : view st n = some ptr := by
  rcases s.removeEntry_cases fd st with heq | ⟨f, hf, heq⟩
  · rwa [heq] at hv
  · rw [heq, h.remove f hf, Function.update_apply] at hv
    split at hv
    · exact absurd hv (by simp)
    · exact hv

end EMDescriptorStorage.Viewed

/-! ## Entries for a timer -/

/-- Going from `w` to `w'`, references to the timer come up under number `fd` only, and every machine
keeps its storage callbacks. -/
structure Filed (view : σ → Int → Option EDRef) (t : TimerPtr) (fd : Int) (w w' : World σ) : Prop where
  callbacks : ∀ em, (w'.ems em).descriptorStorage = (w.ems em).descriptorStorage
  interest : ∀ q n ev, w'.kernel.interest q n = some ev → ev.data = some (.timer t) →
    n = fd ∨ w.kernel.interest q n = some ev
  stored : ∀ n, view w'.storage n = some (some (.timer t)) →
    n = fd ∨ view w.storage n = some (some (.timer t))

namespace Filed
variable {view : σ → Int → Option EDRef} {t : TimerPtr} {fd : Int} {w w' w'' : World σ}

theorem of_eq (hems : ∀ em, (w'.ems em).descriptorStorage = (w.ems em).descriptorStorage)
    (hinterest : ∀ q n ev, w'.kernel.interest q n = some ev → w.kernel.interest q n = some ev)
    (hstorage : w'.storage = w.storage) : Filed view t fd w w' :=
  ⟨hems, fun q n ev h _ => Or.inr (hinterest q n ev h), fun n h => Or.inr (by rwa [hstorage] at h)⟩

theorem of_core (h : w'.core = w.core) : Filed view t fd w w' :=
  .of_eq (fun em => by rw [World.ems_congr h]) (fun q n ev => by rw [World.interest_congr h]; exact id)
    (World.storage_congr h)

theorem refl (w : World σ) : Filed view t fd w w := .of_core rfl

theorem trans (h : Filed view t fd w w') (h' : Filed view t fd w' w'') : Filed view t fd w w'' := by
  refine ⟨fun em => (h'.callbacks em).trans (h.callbacks em), fun q n ev he hd => ?_, fun n hv => ?_⟩
  · rcases h'.interest q n ev he hd with hn | he'
    · exact Or.inl hn
    · exact h.interest q n ev he' hd
  · rcases h'.stored n hv with hn | hv'
    · exact Or.inl hn
    · exact h.stored n hv'

theorem of_kernelOnly (h : KernelOnly w w')
    (hinterest : ∀ q n ev, w'.kernel.interest q n = some ev → w.kernel.interest q n = some ev) :
    Filed view t fd w w' :=
  .of_eq (fun em => by rw [h.ems]) hinterest (congrArg (·.storage) h)

theorem setEM (w : World σ) (em : EMPtr) {m : EM σ}
    (hm : m.descriptorStorage = (w.ems em).descriptorStorage) : Filed view t fd w (w.setEM em m) := by
  refine .of_eq (fun em' => ?_) (fun _ _ _ h => h) rfl
  by_cases he : em' = em
  · rw [he, World.setEM_self, hm]
  · rw [World.setEM_of_ne w m he]

end Filed

theorem Kernel.released_le (k : Kernel) (fd : Int) {q : ObjId} {n : Int} {ev : EpollEvent}
    (h : (k.released fd).interest q n = some ev) : k.interest q n = some ev := by
  unfold released at h
  split at h
  · exact h
  · simp only [closeFile] at h
    split at h
    · exact absurd h (by simp)
    · exact h

section calls
variable {view : σ → Int → Option EDRef} {t : TimerPtr} {fd : Int} {w w' : World σ}

theorem Closed.filed {who : Owner} {n ret : Int} (h : Closed w who n ret w') :
    Filed view t fd w w' := by
  refine .of_kernelOnly h.only fun q m ev he => ?_
  rw [Kernel.interest_congr h.core] at he
  exact w.kernel.released_le n he

theorem EndClosed.filed {em : EMPtr} {n : Int} {forget : EM σ → EM σ}
    (h : EndClosed em n forget w w')
    (hf : ∀ m, (forget m).descriptorStorage = m.descriptorStorage) : Filed view t fd w w' := by
  rcases h with ⟨-, rfl⟩ | ⟨-, v, hclosed, rfl⟩
  · exact .refl _
  · exact hclosed.filed.trans (.setEM v em (hf _))

theorem DestroyOutcome.filed {em : EMPtr} {r : UInt32} (h : DestroyOutcome w em r w') :
    Filed view t fd w w' := by
  have hfree : Filed view t fd w (w.freeEvents em) := by
    unfold World.freeEvents
    split
    · have hset : Filed view t fd w (w.setEM em { w.ems em with events := none }) := .setEM w em rfl
      exact ⟨hset.callbacks, hset.interest, hset.stored⟩
    · exact .refl w
  cases h with
  | queue _ closed => exact closed.filed
  | writeEnd _ _ closed => exact hfree.trans closed.filed
  | readEnd _ write _ closed => exact hfree.trans ((write.filed fun _ => rfl).trans closed.filed)
  | done _ write read =>
    exact hfree.trans ((write.filed fun _ => rfl).trans (read.filed fun _ => rfl))

theorem InitFrame.filed {em : EMPtr} {ms : List (BufPtr × Int)} {m : EM σ}
    (h : InitFrame w em ms m w') (hm : m.descriptorStorage = (w.ems em).descriptorStorage)
    (hinterest : ∀ q n ev, w'.kernel.interest q n = some ev → ev.data = some (.timer t) →
      w.kernel.interest q n = some ev) : Filed view t fd w w' := by
  refine ⟨fun em' => ?_, fun q n ev he hd => Or.inr (hinterest q n ev he hd), fun n hv => Or.inr ?_⟩
  · rw [h.ems]
    by_cases he : em' = em
    · rw [he, Function.update_self, hm]
    · rw [Function.update_of_ne he]
  · rwa [show w'.storage = w.storage from congrArg (·.storage) h.frame] at hv

theorem Kernel.PipeMade.interest {k k' : Kernel} {who : Owner} {ends : Int × Int}
    (h : k.PipeMade who ends k') : k'.interest = k.interest := by
  obtain ⟨r, w, k₁, k₂, -, -, -, -, -, -, hinterest, -, -, -, hflags⟩ := h
  exact (congrArg (·.interest) hflags.2).trans hinterest

theorem Buffered.descriptorStorage {em : EMPtr} {m : EM σ} {ms : List (BufPtr × Int)}
    (h : Buffered w em m ms) : m.descriptorStorage = (w.ems em).descriptorStorage := by
  cases h <;> rfl

theorem InitOutcome.filed {usePipe2 : Bool} {em : EMPtr} {ms : List (BufPtr × Int)} {m : EM σ}
    {r : UInt32} (hb : Buffered w em m ms) (h : InitOutcome usePipe2 w em ms m r w') :
    Filed view t fd w w' := by
  have hm := hb.descriptorStorage
  cases h with
  | noPipe _ base core => exact base.filed hm fun q n ev he _ => by rwa [Kernel.interest_congr core] at he
  | noFlags _ _ base pipe => exact base.filed hm fun q n ev he _ => by rwa [pipe.interest] at he
  | noQueue _ _ base pipe => exact base.filed hm fun q n ev he _ => by rwa [pipe.interest] at he
  | queue ends n q k₁ k₂ base pipe queue event =>
    apply base.filed hm
    intro q' n' ev he hd
    have hk₂ : k₂.interest q' n' = some ev := by
      rcases event with ⟨-, hcore⟩ | ⟨-, hcore⟩
      · rw [Kernel.interest_congr hcore] at he
        simp only [Kernel.setInterest, Function.update_apply] at he
        split at he
        · next hq =>
          rw [Function.update_apply] at he
          split at he
          · obtain rfl := Option.some.inj he
            exact absurd hd (by simp)
          · rwa [hq]
        · exact he
      · rwa [Kernel.interest_congr hcore] at he
    rw [queue.2.2.2.1, Function.update_apply, pipe.interest] at hk₂
    split at hk₂
    · exact absurd hk₂ (by simp)
    · exact hk₂

theorem Outcome.filed {em : EMPtr} {c : RegCall} {r : UInt32 × OutVar}
    (h : Outcome w em (c.change w em) c.oldEd r w') (hs : (w.ems em).descriptorStorage.Viewed view)
    (hfd : (w.timers t).eventDescriptor.fd = fd)
    (hc : ∀ n old, c = .modify n (some (.timer t)) old → n = fd) : Filed view t fd w w' := by
  have hems := h.ems
  cases h with
  | refused _ _ same => exact .of_core same.core
  | done q can _ core =>
    refine ⟨fun em' => by rw [hems], fun q' n ev he hd => ?_, fun n hv => ?_⟩
    · have hinterest : w'.kernel.interest = (w.kernel.setInterest q.id (c.change w em).fd
          (Kernel.entryAfter (c.change w em).op (c.change w em).event)).interest :=
        World.interest_congr core
      rw [hinterest] at he
      simp only [Kernel.setInterest, Function.update_apply] at he
      split at he
      · next hq =>
        rw [Function.update_apply] at he
        split at he
        · next hn =>
          refine Or.inl (hn.trans ?_)
          cases c with
          | delete m old => simp [RegCall.change, deleteChange, Kernel.entryAfter] at he
          | add ed =>
            obtain rfl : ctlEvent w ed = ev := Option.some.inj he
            obtain rfl : ed = some (.timer t) := hd
            exact hfd
          | modify m ed old =>
            obtain rfl : ctlEvent w ed = ev := Option.some.inj he
            obtain rfl : ed = some (.timer t) := hd
            exact hfd
        · exact Or.inr (by rwa [hq])
      · exact Or.inr he
    · have hstorage : w'.storage = ((c.change w em).store w.storage).2 := World.storage_congr core
      rw [hstorage] at hv
      cases c with
      | add ed =>
        rcases hs.insertEntry hv with hv | ⟨rfl, hed⟩
        · exact Or.inr hv
        · subst hed
          exact Or.inl hfd
      | delete m old => exact Or.inr (hs.removeEntry hv)
      | modify m ed old =>
        simp only [RegCall.change, modifyChange] at hv
        split at hv
        · rcases hs.insertEntry hv with hv | ⟨rfl, hed⟩
          · exact Or.inr (hs.removeEntry hv)
          · exact Or.inl (hc _ old (by rw [hed]))
        · exact Or.inr (hs.removeEntry hv)

theorem Settime.filed {x : TimerPtr} {new : Itimerspec} {r : UInt32} (h : Settime w x new r w') :
    Filed view t fd w w' := by
  refine .of_kernelOnly h.only fun q n ev he => ?_
  rcases h.effect with ⟨-, hcore⟩ | ⟨-, f, -, -, hcore⟩
  · rwa [Kernel.interest_congr hcore] at he
  · rwa [show w'.kernel.interest = w.kernel.interest from congrArg (·.interest) hcore] at he

theorem TimerMade.filed {em : EMPtr} {x : TimerPtr} {callback : Nat} {data : VoidPtr} {n : Int}
    {f : File} (h : TimerMade w em x callback data n f w') : Filed view t fd w w' := by
  refine .of_eq (fun em' => ?_) (fun q m ev he => ?_) (congrArg (·.storage) h.frame)
  · rw [show w'.ems = w.ems from congrArg (·.ems) h.frame]
  · rwa [h.made.interest] at he

theorem TimerAdded.filed {x : TimerPtr} {n : Int} {r : UInt32} (h : TimerAdded w x n r w')
    (hs : ∀ em, (w.ems em).descriptorStorage.Viewed view)
    (hfd : x ≠ t → (w.timers t).eventDescriptor.fd = fd) (hn : x = t → n = fd) :
    Filed view t fd w w' := by
  obtain ⟨em, callback, data, f, w₁, hmade, hout, -⟩ := h
  have hems : w₁.ems = w.ems := congrArg (·.ems) hmade.frame
  have htimers : w₁.timers = (w.setTimer x (createdTimer em x n callback data)).timers :=
    congrArg (·.timers) hmade.frame
  have hfd₁ : (w₁.timers t).eventDescriptor.fd = fd := by
    rw [htimers]
    by_cases hx : t = x
    · subst hx
      rw [World.setTimer_self]
      exact hn rfl
    · rw [World.setTimer_of_ne w _ hx]
      exact hfd fun h => hx h.symm
  refine hmade.filed.trans (Outcome.filed (c := .add (some (.timer x))) hout ?_ hfd₁ nofun)
  rw [hems]
  exact hs em

theorem CreateOutcome.filed {x : TimerPtr} {r : UInt32} (h : CreateOutcome w x r w') (hx : x ≠ t)
    (hs : ∀ em, (w.ems em).descriptorStorage.Viewed view)
    (hfd : (w.timers t).eventDescriptor.fd = fd) : Filed view t fd w w' := by
  cases h with
  | refused => exact .refl w
  | noTimerfd core frame =>
    refine .of_eq (fun em' => ?_) (fun q m ev he => ?_) (congrArg (·.storage) frame)
    · rw [show w'.ems = w.ems from congrArg (·.ems) frame]
    · rwa [Kernel.interest_congr core] at he
  | notAdded e _ added closed =>
    have hclosed := (added.filed hs (fun _ => hfd) fun h => absurd h hx).trans closed.filed
    exact ⟨hclosed.callbacks, hclosed.interest, hclosed.stored⟩
  | done added => exact added.filed hs (fun _ => hfd) fun h => absurd h hx

theorem TimerDeleted.filed {x : TimerPtr} {r : UInt32} (h : TimerDeleted w x r w')
    (hs : ∀ em, (w.ems em).descriptorStorage.Viewed view)
    (hfd : (w.timers t).eventDescriptor.fd = fd) : Filed view t fd w w' := by
  obtain ⟨em, old, -, hout, -⟩ := h
  exact Outcome.filed (c := .delete _ none) hout (hs em) hfd nofun

theorem TimerDestroyOutcome.filed {x : TimerPtr} {r : UInt32} (h : TimerDestroyOutcome w x r w')
    (hs : ∀ em, (w.ems em).descriptorStorage.Viewed view)
    (hfd : (w.timers t).eventDescriptor.fd = fd) : Filed view t fd w w' := by
  cases h with
  | notDeleted e _ deleted closed =>
    have hclosed : Filed view t fd w _ := (deleted.filed hs hfd).trans closed.filed
    exact ⟨hclosed.callbacks, hclosed.interest, hclosed.stored⟩
  | notClosed deleted closed => exact (deleted.filed hs hfd).trans closed.filed
  | done deleted closed =>
    have hclosed : Filed view t fd w _ := (deleted.filed hs hfd).trans closed.filed
    exact ⟨hclosed.callbacks, hclosed.interest, hclosed.stored⟩

end calls

/-! ## Steps -/

/-- A call that neither creates nor destroys the timer, and does not modify another number to the
event descriptor of the timer. -/
def Call.Spares (t : TimerPtr) (fd : Int) : Call → Prop
  | .timerCreate _ x _ _ => x ≠ some t
  | .timerDestroy x => x ≠ some t
  | .reg _ (.modify n ed _) => ed = some (.timer t) → n = fd
  | _ => True

section steps
variable {view : σ → Int → Option EDRef} {t : TimerPtr} {fd : Int} {usePipe2 : Bool}

theorem Call.filed {f : Call} {r : UInt32} {w w' : World σ} (hexec : f.exec usePipe2 w = .ok r w')
    (hs : ∀ em, (w.ems em).descriptorStorage.Viewed view)
    (hfd : (w.timers t).eventDescriptor.fd = fd) (hf : f.Spares t fd) : Filed view t fd w w' := by
  cases Call.outcome hexec with
  | null => exact .refl w
  | init buffer out => exact out.filed buffer
  | destroy out => exact out.filed
  | terminate only still =>
    refine .of_kernelOnly only fun q n ev he => ?_
    rwa [show w'.kernel.interest = w.kernel.interest from congrArg (·.interest) still] at he
  | reg out =>
    apply Outcome.filed out (hs _) hfd
    rintro n old rfl
    exact hf rfl
  | timerCreate out => exact out.filed (fun h => hf (congrArg some h)) hs hfd
  | timerStart out => exact out.filed
  | timerStop out => exact out.filed
  | timerDestroy out => exact out.filed hs hfd

theorem Env.filed (e : Env) (w : World σ) : Filed view t fd w (e.exec w) := by
  cases e with
  | openFile status cloexec => exact .of_eq (fun _ => rfl) (fun _ _ _ h => h) rfl
  | closeFile n =>
    refine .of_eq (fun _ => rfl) (fun q m ev he => ?_) rfl
    apply w.kernel.released_le n
    rwa [← Kernel.interest_congr (w.kernel.close_core n)]
  | setDescriptor a d => exact .of_eq (fun _ => rfl) (fun _ _ _ h => h) rfl
  | setTimer x y => exact .of_eq (fun _ => rfl) (fun _ _ _ h => h) rfl
  | expire o =>
    refine .of_eq (fun _ => rfl) (fun q m ev he => ?_) rfl
    have hinterest : (w.kernel.expire o).interest = w.kernel.interest := by
      unfold Kernel.expire
      split <;> rfl
    change (w.kernel.expire o).interest q m = some ev at he
    rwa [hinterest] at he

/-- A step that leaves the timer alive: it spares the timer, its memory and its timerfd. -/
structure SparingStep (usePipe2 : Bool) (t : TimerPtr) (c : Config σ) (a : Act) (c' : Config σ) :
    Prop where
  step : Step usePipe2 c a c'
  call : ∀ f r, a = .event (.ret f r) → f.Spares t (c.world.timers t).eventDescriptor.fd
  memory : c'.world.timers t = c.world.timers t
  timerfd : c'.world.kernel.file (c.world.timers t).eventDescriptor.fd =
    c.world.kernel.file (c.world.timers t).eventDescriptor.fd

theorem SparingStep.filed {c c' : Config σ} {a : Act} (h : SparingStep usePipe2 t c a c')
    (hmode : c'.mode ≠ .crashed) (hs : ∀ em, (c.world.ems em).descriptorStorage.Viewed view) :
    Filed view t (c.world.timers t).eventDescriptor.fd c.world c'.world := by
  have hcall := h.call
  cases h.step with
  | call fs hexec => exact Call.filed hexec hs rfl (hcall _ _ rfl)
  | crash => exact absurd rfl hmode
  | env e w fs m => exact e.filed w
  | enter fs hexec => exact .of_core (wp_ok (eventMachineRunEnter_spec _ _) hexec).1.core
  | refuse fs hexec => exact .of_core (wp_ok (eventMachineRunEnter_spec _ _) hexec).1.core
  | ret => exact .refl _
  | @go w fs o _ =>
    have hcalm := (Config.go_cases w fs o).calm
    refine .of_eq (fun em => ?_) (fun q n ev he => ?_) (congrArg (·.storage) hcalm)
    · show ((Config.go _ _).world.ems em).descriptorStorage = _
      rw [hcalm.ems]
    · change (Config.go _ _).world.kernel.interest q n = _ at he
      rwa [hcalm.interest] at he

end steps

end EventMachine
