import RecoverOS.Base.Serial
import RecoverOS.Device.Completion
import RecoverOS.LibKernel.PutNum
import RecoverOS.LibKernel.Roll

set_option autoImplicit false

/-! # Printing from many threads (`device/console.c` over `thread/sync.c`)

The functions of the console hold `console_lock` while they print. The lock is the one of `Thread.Sync`, step
for step, and the other threads may run between any two accesses of a function to the screen, into whatever
accesses `put_char` and `cls_screen` are split. -/

namespace RecoverOS

open Serial (Action perform effects)

namespace Console

/-! ## The functions -/

/-- A call of `console_put_char`, `console_put_str`, `console_put_num`, `console_put_info` or `sys_clear`. -/
inductive Call where
  | putChar (char_asci : Byte)
  | putStr (str : List Byte)
  | putNum (num : Nat)
  | putInfo (message : List Byte) (num : Nat)
  | clear

/-- The characters of `put_num`. -/
def numChars (num : Nat) : List Byte := (numeral 16 num).map lowerHex

/-- What is called with the lock held. -/
def Call.body : Call → List Screen.Call
  | .putChar c => [.putChar c]
  | .putStr str => str.map .putChar
  | .putNum num => (numChars num).map .putChar
  | .putInfo message num => (message ++ numChars num ++ [10]).map .putChar
  | .clear => [.clsScreen]

/-- What it does to the screen. -/
def Call.effect (c : Call) (s : Screen) : Screen := s.run c.body

theorem effect_putNum (s : Screen) {num : Nat} (h : num < 2 ^ 64) (dbuf : Nat → Byte) :
    Call.effect (.putNum num) s = s.putNum num dbuf := by
  rw [Screen.putNum_eq s h]
  exact List.foldl_map

theorem effect_putInfo (s : Screen) (message : List Byte) {num : Nat} (h : num < 2 ^ 64) (dbuf : Nat → Byte) :
    Call.effect (.putInfo message num) s = ((s.putStr message).putNum num dbuf).putChar 10 := by
  rw [Screen.putNum_eq _ h]
  show ((message ++ numChars num ++ [10]).map Screen.Call.putChar).foldl Screen.call s = _
  rw [List.foldl_map, List.foldl_append, List.foldl_append]
  rfl

/-- How `put_char` and `cls_screen` are split into accesses, by threads with a state of their own. -/
abbrev Accesses (ℓ : Type) := Screen.Call → List (Action Screen ℓ)

/-- The accesses of a call. -/
def actions {ℓ : Type} (access : Accesses ℓ) (c : Call) : List (Action Screen ℓ) := c.body.flatMap access

/-- Where a thread is in a call, and what is left of it. -/
inductive Place (ℓ : Type) where
  | idle
  | acquire (c : Call)
  | inside (c : Call) (rest : List (Action Screen ℓ))
  | release

/-- The call of a thread that holds the lock. -/
def Place.job {ℓ : Type} : Place ℓ → Option (Call × List (Action Screen ℓ))
  | .inside c rest => some (c, rest)
  | _ => none

theorem Place.eq_of_job {ℓ : Type} {place : Place ℓ} {c : Call} {rest : List (Action Screen ℓ)}
    (h : place.job = some (c, rest)) : place = .inside c rest := by
  cases place with
  | inside c rest =>
      cases h
      rfl
  | idle => cases h
  | acquire c => cases h
  | release => cases h

variable {T ℓ : Type} [DecidableEq T]

/-- The lock, the screen and the threads. `printed` are the calls that have left the lock; nothing in the code
    reads it. -/
structure State (T ℓ : Type) where
  console_lock : Sync.State T
  screen : Screen
  own : T → ℓ
  place : T → Place ℓ
  printed : List Call

namespace State

/-- After `console_init`. -/
def init (screen : Screen) (own : T → ℓ) : State T ℓ := ⟨Sync.State.init, screen, own, fun _ => .idle, []⟩

/-- The thread goes on at another place. -/
def goto (s : State T ℓ) (t : T) (place : Place ℓ) : State T ℓ :=
  { s with place := Function.update s.place t place }

end State

/-- One step of one thread: it calls a function, goes on in `console_acquire`, prints, goes on in
    `console_release`, or returns. -/
inductive Step (access : Accesses ℓ) (s : State T ℓ) (t : T) : State T ℓ → Prop where
  | call {c : Call} (hplace : s.place t = .idle) :
      Step access s t { s.goto t (.acquire c) with console_lock := s.console_lock.goto t .testHolder }
  | lock {lock : Sync.State T} (hout : s.console_lock.pc t ≠ .out) (hblocked : s.console_lock.pc t ≠ .blocked)
      (hrun : Sync.run t s.console_lock = .ok ((), lock)) : Step access s t { s with console_lock := lock }
  | enter {c : Call} (hplace : s.place t = .acquire c) (hout : s.console_lock.pc t = .out) :
      Step access s t (s.goto t (.inside c (actions access c)))
  | access {c : Call} {a : Action Screen ℓ} {rest : List (Action Screen ℓ)}
      (hplace : s.place t = .inside c (a :: rest)) :
      Step access s t
        { s.goto t (.inside c rest) with
          screen := (a (s.screen, s.own t)).1
          own := Function.update s.own t (a (s.screen, s.own t)).2 }
  | leave {c : Call} (hplace : s.place t = .inside c []) :
      Step access s t
        { s.goto t .release with
          console_lock := s.console_lock.goto t .assertHolder
          printed := s.printed ++ [c] }
  | return (hplace : s.place t = .release) (hout : s.console_lock.pc t = .out) :
      Step access s t (s.goto t .idle)

/-! ## One thread in the lock -/

/-- Where a thread is in the lock, by the place where it is in its call. -/
def LockAt (place : Place ℓ) (pc : Sync.Pc) (depth : Nat) : Prop :=
  match place with
  | .idle => pc = .out ∧ depth = 0
  | .acquire _ => pc.acquiring = true ∧ depth = 0 ∨ pc = .out ∧ depth = 1
  | .inside .. => pc = .out ∧ depth = 1
  | .release => pc.releasing = true ∧ depth = 1 ∨ pc = .out ∧ depth = 0

/-- The lock is in order, and so are the threads in it. -/
structure Inv (s : State T ℓ) : Prop where
  lock : Sync.Inv s.console_lock
  place : ∀ t, LockAt (s.place t) (s.console_lock.pc t) (s.console_lock.depth t)

section Steps

variable {access : Accesses ℓ} {s s' : State T ℓ} {t u : T} {place : Place ℓ} {c : Call}
  {rest : List (Action Screen ℓ)} {ts : List T}

@[simp] theorem goto_place_self : (s.goto t place).place t = place := by
  simp [State.goto]

theorem goto_place_of_ne (h : u ≠ t) : (s.goto t place).place u = s.place u := by
  simp [State.goto, h]

omit [DecidableEq T] in
/-- A waiter that is woken is still in `console_acquire`. -/
theorem LockAt.woken {depth : Nat} (h : LockAt place .blocked depth) : LockAt place .woken depth := by
  cases place with
  | acquire c =>
      obtain ⟨-, hd⟩ | ⟨hpc, -⟩ := h
      · exact .inl ⟨rfl, hd⟩
      · cases hpc
  | release =>
      obtain ⟨hpc, -⟩ | ⟨hpc, -⟩ := h
      · cases hpc
      · cases hpc
  | idle => cases h.1
  | inside c rest => cases h.1

omit [DecidableEq T] in
theorem Inv.init (screen : Screen) (own : T → ℓ) : Inv (State.init screen own) where
  lock := Sync.Inv.init
  place _ := ⟨rfl, rfl⟩

omit [DecidableEq T] in
theorem Inv.owns (h : Inv s) (ht : s.place t = .inside c rest) : Sync.Owns s.console_lock t := by
  have hlock := h.place t
  rw [ht] at hlock
  refine .inl ?_
  rw [hlock.2]
  exact Nat.one_pos

/-- A thread is elsewhere in the lock and in its call. -/
theorem Inv.move (h : Inv s) {s' : State T ℓ} (hlock : Sync.Inv s'.console_lock)
    (hself : LockAt (s'.place t) (s'.console_lock.pc t) (s'.console_lock.depth t))
    (hplace : ∀ u, u ≠ t → s'.place u = s.place u)
    (hother : ∀ u, u ≠ t → (s'.console_lock.pc u = s.console_lock.pc u ∨
      s.console_lock.pc u = .blocked ∧ s'.console_lock.pc u = .woken) ∧
        s'.console_lock.depth u = s.console_lock.depth u) : Inv s' := by
  refine ⟨hlock, fun u => ?_⟩
  by_cases hu : u = t
  · rw [hu]
    exact hself
  · rw [hplace u hu, (hother u hu).2]
    obtain hpc | ⟨hblocked, hwoken⟩ := (hother u hu).1
    · rw [hpc]
      exact h.place u
    · rw [hwoken]
      exact (hblocked ▸ h.place u).woken

theorem Inv.step (h : Inv s) (hstep : Step access s t s') : Inv s' := by
  have hlock := h.place t
  cases hstep with
  | @call c hplace =>
      rw [hplace] at hlock
      obtain ⟨hpc, hd⟩ := hlock
      refine h.move (Sync.Step.inv h.lock (.acquire hpc)) ?_ (fun u hu => goto_place_of_ne hu)
        fun u hu => ⟨.inl (Sync.goto_pc_of_ne hu), rfl⟩
      show LockAt ((s.goto t (.acquire c)).place t) ((s.console_lock.goto t .testHolder).pc t) _
      rw [goto_place_self, Sync.goto_pc_self]
      exact .inl ⟨rfl, hd⟩
  | @lock lock hout hblocked hrun =>
      have hinv := Sync.Step.inv h.lock (.run hout hblocked hrun)
      cases hp : s.place t with
      | idle =>
          rw [hp] at hlock
          exact absurd hlock.1 hout
      | inside c rest =>
          rw [hp] at hlock
          exact absurd hlock.1 hout
      | acquire c =>
          rw [hp] at hlock
          obtain ⟨hacq, hd⟩ := hlock.resolve_right fun hpc => hout hpc.1
          obtain ⟨hself, hothers⟩ := Sync.run_acquiring hacq hrun
          refine h.move hinv ?_ (fun _ _ => rfl) fun u hu => ⟨.inl (hothers u hu).1, (hothers u hu).2⟩
          show LockAt (s.place t) (lock.pc t) (lock.depth t)
          rw [hp]
          obtain ⟨hacq', hd'⟩ | ⟨hpc', hd'⟩ := hself
          · exact .inl ⟨hacq', hd'.trans hd⟩
          · exact .inr ⟨hpc', by omega⟩
      | release =>
          rw [hp] at hlock
          obtain ⟨hrel, hd⟩ := hlock.resolve_right fun hpc => hout hpc.1
          obtain ⟨hself, hothers⟩ := Sync.run_releasing hrel hrun
          refine h.move hinv ?_ (fun _ _ => rfl) hothers
          show LockAt (s.place t) (lock.pc t) (lock.depth t)
          rw [hp]
          obtain ⟨hrel', hd'⟩ | ⟨hpc', hd'⟩ := hself
          · exact .inl ⟨hrel', hd'.trans hd⟩
          · exact .inr ⟨hpc', by omega⟩
  | @enter c hplace hout =>
      rw [hplace] at hlock
      refine h.move h.lock ?_ (fun u hu => goto_place_of_ne hu) fun u _ => ⟨.inl rfl, rfl⟩
      rw [goto_place_self]
      refine hlock.resolve_left fun hacq => ?_
      rw [hout] at hacq
      cases hacq.1
  | @access c a rest hplace =>
      rw [hplace] at hlock
      refine h.move h.lock ?_ (fun u hu => goto_place_of_ne hu) fun u _ => ⟨.inl rfl, rfl⟩
      show LockAt ((s.goto t (.inside c rest)).place t) _ _
      rw [goto_place_self]
      exact hlock
  | @leave c hplace =>
      rw [hplace] at hlock
      obtain ⟨hpc, hd⟩ := hlock
      refine h.move (Sync.Step.inv h.lock (.release hpc (by omega))) ?_ (fun u hu => goto_place_of_ne hu)
        fun u hu => ⟨.inl (Sync.goto_pc_of_ne hu), rfl⟩
      show LockAt ((s.goto t .release).place t) ((s.console_lock.goto t .assertHolder).pc t) _
      rw [goto_place_self, Sync.goto_pc_self]
      exact .inl ⟨rfl, hd⟩
  | «return» hplace hout =>
      rw [hplace] at hlock
      refine h.move h.lock ?_ (fun u hu => goto_place_of_ne hu) fun u _ => ⟨.inl rfl, rfl⟩
      rw [goto_place_self]
      refine hlock.resolve_left fun hrel => ?_
      rw [hout] at hrel
      cases hrel.1

/-! ## One call at a time -/

/-- The calls that hold the lock, as jobs on the screen. -/
def jobs (s : State T ℓ) : Serial.State T Screen ℓ Call :=
  ⟨s.screen, s.own, fun t => (s.place t).job, s.printed⟩

/-- The jobs after one thread went on. -/
theorem inside_goto : (jobs (s.goto t place)).inside = Function.update (jobs s).inside t place.job := by
  funext u
  show ((s.goto t place).place u).job = _
  by_cases hu : u = t
  · rw [hu, Function.update_self, goto_place_self]
  · rw [Function.update_of_ne hu, goto_place_of_ne hu]
    rfl

/-- The same between two places outside the lock. -/
theorem jobs_goto (h : (s.place t).job = none) (hplace : place.job = none) :
    (jobs (s.goto t place)).inside = (jobs s).inside := by
  rw [inside_goto, hplace, ← h]
  exact Function.update_eq_self t (jobs s).inside

/-- A step of the console is one of the jobs, or leaves them alone. -/
theorem Inv.jobs_step (h : Inv s) (hstep : Step access s t s') :
    jobs s' = jobs s ∨ Serial.Step (actions access) (jobs s) t (jobs s') := by
  have hlock := h.place t
  cases hstep with
  | @call c hplace =>
      have hin : (jobs (s.goto t (.acquire c))).inside = (jobs s).inside := jobs_goto (by rw [hplace]; rfl) rfl
      exact .inl (congrArg (Serial.State.mk s.screen s.own · s.printed) hin)
  | lock => exact .inl rfl
  | @enter c hplace hout =>
      rw [hplace] at hlock
      have hd := (hlock.resolve_left fun hacq => by
        rw [hout] at hacq
        cases hacq.1).2
      -- whoever is inside owns the lock, and so does this thread
      have hquiet : (jobs s).Quiet := by
        intro u
        cases hjob : (jobs s).inside u with
        | none => rfl
        | some job =>
            have howns : Sync.Owns s.console_lock t := .inl (by omega)
            have hut : u = t := (h.lock.owner howns).2.2 u (h.owns (Place.eq_of_job hjob))
            have hnone : (s.place t).job = none := by rw [hplace]; rfl
            rw [hut] at hjob
            exact hjob.symm.trans hnone
      have hnext : jobs (s.goto t (.inside c (actions access c))) =
          { jobs s with inside := Function.update (jobs s).inside t (some (c, actions access c)) } :=
        congrArg (Serial.State.mk s.screen s.own · s.printed) inside_goto
      refine .inr ?_
      show Serial.Step _ _ _ (jobs (s.goto t (.inside c (actions access c))))
      rw [hnext]
      exact .enter hquiet
  | @access c a rest hplace =>
      have hin : (jobs s).inside t = some (c, a :: rest) := congrArg Place.job hplace
      have hnext : jobs
          { s.goto t (.inside c rest) with
            screen := (a (s.screen, s.own t)).1
            own := Function.update s.own t (a (s.screen, s.own t)).2 } =
          { jobs s with
            shared := (a ((jobs s).shared, (jobs s).own t)).1
            own := Function.update (jobs s).own t (a ((jobs s).shared, (jobs s).own t)).2
            inside := Function.update (jobs s).inside t (some (c, rest)) } :=
        congrArg (Serial.State.mk (a (s.screen, s.own t)).1
          (Function.update s.own t (a (s.screen, s.own t)).2) · s.printed) inside_goto
      rw [hnext]
      exact .inr (.act hin)
  | @leave c hplace =>
      have hin : (jobs s).inside t = some (c, []) := congrArg Place.job hplace
      have hnext : jobs
          { s.goto t .release with
            console_lock := s.console_lock.goto t .assertHolder
            printed := s.printed ++ [c] } =
          { jobs s with
            inside := Function.update (jobs s).inside t none
            done := (jobs s).done ++ [c] } :=
        congrArg (Serial.State.mk s.screen s.own · (s.printed ++ [c])) inside_goto
      rw [hnext]
      exact .inr (.leave hin)
  | «return» hplace hout =>
      have hin : (jobs (s.goto t .idle)).inside = (jobs s).inside := jobs_goto (by rw [hplace]; rfl) rfl
      exact .inl (congrArg (Serial.State.mk s.screen s.own · s.printed) hin)

/-! ## Runs -/

/-- The accesses of a function are those of its code. -/
def Splits (access : Accesses ℓ) : Prop := Serial.Implements access fun a s => s.call a

omit [DecidableEq T] in
theorem Splits.actions (h : Splits access) : Serial.Implements (actions access) Call.effect :=
  Serial.Implements.flatMap h Call.body

theorem run_jobs {s0 : State T ℓ} (h0 : Inv s0) (hrun : Run (Step access) s0 ts s) :
    Inv s ∧ ∃ ts', Run (Serial.Step (actions access)) (jobs s0) ts' (jobs s) := by
  induction hrun with
  | nil => exact ⟨h0, [], .nil⟩
  | snoc _ hlast ih =>
      obtain ⟨hinv, ts', hjobs⟩ := ih
      refine ⟨hinv.step hlast, ?_⟩
      obtain heq | hstep := hinv.jobs_step hlast
      · exact ⟨ts', heq ▸ hjobs⟩
      · exact ⟨_, hjobs.snoc hstep⟩

theorem run_between {screen : Screen} {own : T → ℓ} (hsplit : Splits access)
    (hrun : Run (Step access) (State.init screen own) ts s) :
    Serial.Between (actions access) Call.effect screen (jobs s) := by
  obtain ⟨-, ts', hjobs⟩ := run_jobs (Inv.init screen own) hrun
  exact Serial.Between.run hsplit.actions (fun _ => rfl) rfl hjobs

omit [DecidableEq T] in
theorem screen_of_free {screen : Screen} (h : Serial.Between (actions access) Call.effect screen (jobs s))
    (hfree : ∀ t c rest, s.place t ≠ .inside c rest) : s.screen = effects Call.effect s.printed screen := by
  obtain ⟨-, hshared⟩ | ⟨u, j, acts, before, l, hu, -⟩ := h
  · exact hshared
  · exact absurd (Place.eq_of_job hu) (hfree u j acts)

/-- While nobody holds the lock, the screen is the one that the calls leave when each of them is made alone, and
    while a thread holds it, it is that screen with the accesses that the thread has made. -/
theorem printed_serially (screen : Screen) (own : T → ℓ) (hsplit : Splits access)
    (hrun : Run (Step access) (State.init screen own) ts s) :
    ((∀ t c rest, s.place t ≠ .inside c rest) → s.screen = effects Call.effect s.printed screen) ∧
      ∀ t c rest, s.place t = .inside c rest → ∃ before l, before ++ rest = actions access c ∧
        s.screen = (perform before (effects Call.effect s.printed screen, l)).1 := by
  have hbetween := run_between hsplit hrun
  refine ⟨screen_of_free hbetween, fun t c rest hplace => ?_⟩
  have hin : (jobs s).inside t = some (c, rest) := congrArg Place.job hplace
  obtain ⟨hquiet, -⟩ | ⟨u, j, acts, before, l, hu, hothers, hbody, hboth⟩ := hbetween
  · rw [hquiet t] at hin
    cases hin
  · by_cases htu : t = u
    · rw [htu, hu] at hin
      cases hin
      exact ⟨before, l, hbody, congrArg Prod.fst hboth⟩
    · rw [hothers t htu] at hin
      cases hin

theorem putStr_append (screen : Screen) (str str' : List Byte) :
    screen.putStr (str ++ str') = (screen.putStr str).putStr str' := List.foldl_append

theorem effects_putStr (screen : Screen) (strs : List (List Byte)) :
    effects Call.effect (strs.map .putStr) screen = screen.putStr strs.flatten := by
  induction strs generalizing screen with
  | nil => rfl
  | cons str strs ih =>
      rw [List.flatten_cons, putStr_append, ← ih]
      have hstr : Call.effect (.putStr str) screen = screen.putStr str := List.foldl_map
      rw [← hstr]
      rfl

/-- Strings that threads print on a cleared screen appear whole, one behind the other. -/
theorem strings_shown (s0 : Screen) (hprop : s0.change_property = false) (own : T → ℓ) (hsplit : Splits access)
    (hrun : Run (Step access) (State.init s0.cleared own) ts s)
    (hfree : ∀ t c rest, s.place t ≠ .inside c rest) {strs : List (List Byte)}
    (hstrs : s.printed = strs.map .putStr) (htext : ∀ c ∈ strs.flatten, Screen.IsText c) :
    s.screen.getCur = 80 * ((TextRows.lay strs.flatten).ended.length - (TextRows.lay strs.flatten).top) +
        (TextRows.lay strs.flatten).row.length ∧
      ∀ k < 25, ∀ j < 80, s.screen.cells (80 * k + j : Nat) =
        (((TextRows.lay strs.flatten).charAt ((TextRows.lay strs.flatten).top + k) j).map s0.cell).getD
          (s0.background ((TextRows.lay strs.flatten).top + k) j) := by
  have hscreen := screen_of_free (run_between hsplit hrun) hfree
  rw [hstrs, effects_putStr] at hscreen
  rw [hscreen]
  obtain ⟨hprinted, hcur⟩ := Screen.printed_cleared s0 hprop strs.flatten htext
  exact (Screen.shows_putStr s0 strs.flatten htext).text hprinted hcur

end Steps

/-! ## The accesses of `put_char` -/

/-- Where `put_char` moves the cursor to. -/
def target (c : Byte) (cur : Nat) : Nat :=
  if c = 13 then cur / 80 * 80
  else if c = 10 then (cur / 80 + 1) * 80 % 2 ^ 16
  else if c = 8 then (cur + 2 ^ 16 - 1) % 2 ^ 16
  else if c = 9 then (cur / 8 + 1) * 8 % 2 ^ 16
  else (cur + 1) % 2 ^ 16

/-- The variable `cur` of `put_char`, until it returns. -/
abbrev Local := Option Nat

/-- An access that is made unless `put_char` has returned. -/
def access (f : Nat → Screen → Screen) : Action Screen Local := fun x =>
  match x.2 with
  | none => x
  | some cur => (f cur x.1, some cur)

/-- The tests of `put_char` and `get_cur`. -/
def readCur (c : Byte) : Action Screen Local := fun x =>
  if x.1.change_property = true then ({ x.1 with d_property := c, change_property := false }, none)
  else if c = 0x1b then ({ x.1 with change_property := true }, none)
  else (x.1, some x.1.getCur)

/-- The stores before `set_cur`. -/
def storeBefore (c : Byte) (cur : Nat) (s : Screen) : Screen :=
  if c = 13 ∨ c = 10 ∨ c = 8 then s
  else if c = 9 then Screen.tabLoop (target c cur) 9 cur s
  else s.store cur (s.cell c)

/-- The `memcpy` of `set_cur`. -/
def scrollAt (cur : Nat) (s : Screen) : Screen := if cur ≥ 80 * 25 then s.scroll else s

/-- What `set_cur` puts in the registers. -/
def register (cur : Nat) : Nat := if cur ≥ 80 * 25 then cur - 80 else cur

/-- The store after `set_cur`. -/
def storeAfter (c : Byte) (cur : Nat) (s : Screen) : Screen :=
  if c = 8 then s.store (target c cur) (s.cell 32) else s

/-- `put_char` and `cls_screen` with an access for each register. -/
def accesses : Accesses Local
  | .putChar c =>
      [readCur c, access (storeBefore c), access fun cur => scrollAt (target c cur),
        access fun cur s => { s with cur_low := BitVec.ofNat 8 (register (target c cur)) },
        access fun cur s => { s with cur_high := BitVec.ofNat 8 (register (target c cur) >>> 8) },
        access (storeAfter c)]
  | .clsScreen =>
      [fun x => ({ x.1 with cells := fun i => if 0 ≤ i ∧ i < 80 * 25 then x.1.cell 32 else x.1.cells i }, x.2),
        fun x => ({ x.1 with cur_low := 0 }, x.2), fun x => ({ x.1 with cur_high := 0 }, x.2)]

theorem setCur_eq (s : Screen) (cur : Nat) : s.setCur cur =
    { scrollAt cur s with
      cur_low := BitVec.ofNat 8 (register cur)
      cur_high := BitVec.ofNat 8 (register cur >>> 8) } := by
  unfold Screen.setCur scrollAt register
  split
  · rfl
  · rfl

/-- `put_char` behind its tests. -/
theorem putChar_eq {s : Screen} {c : Byte} (hprop : ¬ s.change_property = true) (hesc : c ≠ 0x1b) :
    s.putChar c = storeAfter c s.getCur ((storeBefore c s.getCur s).setCur (target c s.getCur)) := by
  unfold Screen.putChar storeAfter storeBefore target
  rw [if_neg hprop]
  dsimp only
  rw [if_neg hesc]
  by_cases h13 : c = 13
  · simp [h13]
  by_cases h10 : c = 10
  · simp [h10]
  by_cases h8 : c = 8
  · have hcell : ∀ cur c, (s.setCur cur).cell c = s.cell c := by
      intro cur c
      unfold Screen.setCur
      split
      · rfl
      · rfl
    subst h8
    simp [hcell]
  by_cases h9 : c = 9
  · simp [h9]
  · simp only [h13, h10, h8, h9, if_false, false_or]

theorem splits_accesses : Splits accesses := by
  intro call s l
  cases call with
  | clsScreen => rfl
  | putChar c =>
      show (perform (accesses (.putChar c)) (s, l)).1 = s.putChar c
      unfold accesses
      rw [Serial.perform_cons]
      by_cases hprop : s.change_property = true
      · have hread : readCur c (s, l) = ({ s with d_property := c, change_property := false }, none) :=
          if_pos hprop
        rw [hread]
        unfold Screen.putChar
        rw [if_pos hprop]
        rfl
      by_cases hesc : c = 0x1b
      · have hread : readCur c (s, l) = ({ s with change_property := true }, none) :=
          (if_neg hprop).trans (if_pos hesc)
        rw [hread]
        unfold Screen.putChar
        rw [if_neg hprop]
        dsimp only
        rw [if_pos hesc]
        rfl
      · have hread : readCur c (s, l) = (s, some s.getCur) := (if_neg hprop).trans (if_neg hesc)
        rw [hread, putChar_eq hprop hesc, setCur_eq]
        rfl

/-! ## Two threads -/

/-- A step of the lock by the place where the thread is in it. -/
theorem lock_step {T ℓ : Type} [DecidableEq T] {access : Accesses ℓ} {s : State T ℓ} {t : T}
    {lock : Sync.State T} (k : Sync.Pc) (hk : s.console_lock.pc t = k) (hne : k ≠ .out ∧ k ≠ .blocked)
    (hrun : Sync.run t s.console_lock = .ok ((), lock)) : Step access s t { s with console_lock := lock } :=
  .lock (hk ▸ hne.1) (hk ▸ hne.2) hrun

/-- One thread is blocked while the other one prints. -/
theorem exists_run (screen : Screen) : ∃ ts s,
    Run (Step accesses) (State.init screen fun _ : Bool => none) ts s ∧ s.printed = [.putStr [97]] ∧
      ∀ t c rest, s.place t ≠ .inside c rest := by
  refine ⟨_, _, .cons (.call (c := .putStr [97]) (t := true) rfl) <|
    .cons (lock_step (t := true) .testHolder rfl (by decide) rfl) <|
    .cons (lock_step (t := true) .down rfl (by decide) rfl) <|
    .cons (lock_step (t := true) .setHolder rfl (by decide) rfl) <|
    .cons (lock_step (t := true) .assertZero rfl (by decide) rfl) <|
    .cons (lock_step (t := true) .incr rfl (by decide) rfl) <|
    .cons (lock_step (t := true) (.incrTo 1) rfl (by decide) rfl) <|
    .cons (.enter (t := true) rfl rfl) <|
    .cons (.call (c := .putStr [98]) (t := false) rfl) <|
    .cons (lock_step (t := false) .testHolder rfl (by decide) rfl) <|
    .cons (lock_step (t := false) .down rfl (by decide) rfl) <|
    .cons (.access (t := true) rfl) <|
    .cons (.access (t := true) rfl) <|
    .cons (.access (t := true) rfl) <|
    .cons (.access (t := true) rfl) <|
    .cons (.access (t := true) rfl) <|
    .cons (.access (t := true) rfl) <|
    .cons (.leave (t := true) rfl) <|
    .cons (lock_step (t := true) .assertHolder rfl (by decide) rfl) <|
    .cons (lock_step (t := true) .testNested rfl (by decide) rfl) <|
    .cons (lock_step (t := true) .assertOne rfl (by decide) rfl) <|
    .cons (lock_step (t := true) .clearHolder rfl (by decide) rfl) <|
    .cons (lock_step (t := true) .clearNr rfl (by decide) rfl) <|
    .cons (lock_step (t := true) .up rfl (by decide) rfl) <|
    .cons (.return (t := true) rfl rfl) <|
    .nil, rfl, fun t c rest hplace => ?_⟩
  cases t with
  | false => cases hplace
  | true => cases hplace

theorem printed_serially_a : ∃ s : State Bool Local, s.printed = [.putStr [97]] ∧
    s.screen = effects Call.effect [.putStr [97]] ⟨fun _ => 0, 0, 0, 7, false, []⟩ := by
  obtain ⟨ts, s, hrun, hprinted, hfree⟩ := exists_run ⟨fun _ => 0, 0, 0, 7, false, []⟩
  exact ⟨s, hprinted, hprinted ▸ (printed_serially _ _ splits_accesses hrun).1 hfree⟩

theorem strings_shown_a : ∃ s : State Bool Local, s.printed = [.putStr [97]] ∧ s.screen.getCur = 1 := by
  obtain ⟨ts, s, hrun, hprinted, hfree⟩ := exists_run (Screen.cleared ⟨fun _ => 0, 0, 0, 7, false, []⟩)
  have hstrs : s.printed = [[97]].map .putStr := hprinted
  exact ⟨s, hprinted, (strings_shown ⟨fun _ => 0, 0, 0, 7, false, []⟩ rfl _ splits_accesses hrun
    hfree hstrs (by unfold Screen.IsText; decide)).1⟩

end Console

end RecoverOS
