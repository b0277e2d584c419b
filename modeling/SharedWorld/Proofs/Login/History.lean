import SharedWorld.Proofs.Login.Accounts
import SharedWorld.Proofs.Run

/-! # A store by its calls

What a store answers is a function of the calls that it has had: a name keeps the number and
the password of its first login, and a player the world that was recorded for it last, once
it had logged in.
-/

namespace SharedWorld

namespace Accounts

inductive Call
  | login (name password : String)
  | password (name : String)
  | world (p : PlayerId)
  | setWorld (p : PlayerId) (world : String)

/-- A login that changes the store as it goes. -/
def loginInPlace (a : Accounts) (name password : String) : Accounts × Except LoginError PlayerId :=
  if name = "" then (a, .error .emptyName)
  else match a.byName.get? name with
  | some account =>
    if account.password ≠ password then (a, .error (.passwordMismatch name))
    else (a, .ok account.player)
  | none =>
    let counted := { a with lastId := a.lastId + 1 }
    let player : PlayerId := ⟨counted.lastId⟩
    let added := { counted with byName := counted.byName.insert name { player, password } }
    ({ added with names := added.names.insert player name }, .ok player)

/-- What a call leaves behind. Looking up leaves all as it was. -/
def act (a : Accounts) : Call → Accounts
  | .login name password => (a.loginInPlace name password).1
  | .password _ => a
  | .world _ => a
  | .setWorld p world => a.setWorld p world

def book : System Accounts Call where
  Starts a := a = {}
  Admits _ _ := True
  step a c := (a.act c, [])

structure Entry where
  name : String
  password : String
  player : PlayerId

def success? (m : Moment Accounts Call) : Option Entry :=
  match m.event with
  | .login name password =>
    match (m.state.loginInPlace name password).2 with
    | .ok player => some ⟨name, password, player⟩
    | .error _ => none
  | _ => none

def entries (ms : List (Moment Accounts Call)) : List Entry := ms.filterMap success?

def first? (name : String) (es : List Entry) : Option Entry := es.reverse.find? (·.name = name)

/-- The world that was recorded for a player last, after it had logged in. -/
def recorded? (p : PlayerId) : List (Moment Accounts Call) → Option String
  | [] => none
  | m :: past =>
    match m.event with
    | .setWorld q world =>
      if q = p ∧ p ∈ (entries past).map (·.player) then some world else recorded? p past
    | _ => recorded? p past

variable {ms : List (Moment Accounts Call)} {a a' : Accounts} {name password world : String}
  {p q : PlayerId} {e : LoginError} {es : List Entry} {x : Entry}

theorem loginInPlace_eq (a : Accounts) (name password : String) :
    a.loginInPlace name password =
      match a.login name password with
      | .ok (a', p) => (a', .ok p)
      | .error e => (a, .error e) := by
  unfold loginInPlace login
  split
  · rfl
  · cases a.byName.get? name with
    | none => rfl
    | some account =>
      by_cases h : account.password = password
      · simp [h]
      · simp [h]

theorem loginInPlace_cases (a : Accounts) (name password : String) :
    (∃ a' p, a.login name password = .ok (a', p) ∧ a.loginInPlace name password = (a', .ok p)) ∨
      ∃ e, a.login name password = .error e ∧ a.loginInPlace name password = (a, .error e) := by
  rw [loginInPlace_eq]
  cases h : a.login name password with
  | ok out => exact Or.inl ⟨out.1, out.2, rfl, rfl⟩
  | error e => exact Or.inr ⟨e, rfl, rfl⟩

theorem login_isOk_iff : (∃ out, a.login name password = .ok out) ↔
    name ≠ "" ∧ (a.password? name = none ∨ a.password? name = some password) := by
  unfold login password?
  split
  · next h => simp [h]
  · next h =>
    cases a.byName.get? name with
    | none => simp [h]
    | some account =>
      by_cases hp : account.password = password
      · simp [h, hp]
      · simp [h, hp]

theorem first?_cons (x : Entry) (es : List Entry) :
    first? name (x :: es) = (first? name es <|> if x.name = name then some x else none) := by
  unfold first?
  rw [List.reverse_cons, List.find?_append]
  by_cases h : x.name = name
  · simp [h]
  · simp [h]

theorem name_of_first? (h : first? name es = some x) : x.name = name ∧ x ∈ es := by
  refine ⟨by simpa using List.find?_some h, ?_⟩
  exact List.mem_reverse.mp (List.mem_of_find?_eq_some h)

theorem world?_login (h : a.Sound) (hl : a.login name password = .ok (a', p))
    (hs : a'.size < UInt32.size) (q : PlayerId) : a'.world? q = a.world? q := by
  cases hq : a.names.get? q with
  | some n => exact (login_kept h hl hs hq).2
  | none =>
    have hnone : a.world? q = none := by simp [world?, hq]
    rw [hnone]
    obtain ⟨rfl, -⟩ | ⟨-, rfl, rfl⟩ := login_eq_ok hl
    · exact hnone
    · by_cases hqp : q = ⟨a.lastId + 1⟩
      · simp [world?, hqp]
      · simp [world?, Table.get?_insert, hqp, hq]

theorem setWorld_of_none (h : a.names.get? p = none) : a.setWorld p world = a := by
  unfold setWorld
  rw [h]

/-- What a store has of the calls so far. -/
structure Recalls (ms : List (Moment Accounts Call)) (a : Accounts) : Prop where
  sound : a.Sound
  first : ∀ n account, a.byName.get? n = some account →
    first? n (entries ms) = some ⟨n, account.password, account.player⟩
  entered : ∀ x ∈ entries ms, ∃ account, a.byName.get? x.name = some account ∧
    account.player = x.player
  world : ∀ q, a.world? q = recorded? q ms

theorem Sound.names_iff (h : a.Sound) (name : String) (p : PlayerId) :
    a.names.get? p = some name ↔
      ∃ account, a.byName.get? name = some account ∧ account.player = p := by
  constructor
  · exact h.registered p name
  · rintro ⟨account, ha, rfl⟩
    exact (h.named name account ha).1

theorem Recalls.names_iff (hr : Recalls ms a) (name : String) (p : PlayerId) :
    a.names.get? p = some name ↔ ∃ x ∈ entries ms, x.name = name ∧ x.player = p := by
  rw [hr.sound.names_iff]
  constructor
  · rintro ⟨account, ha, rfl⟩
    obtain ⟨-, hx⟩ := name_of_first? (hr.first name account ha)
    exact ⟨_, hx, rfl, rfl⟩
  · rintro ⟨x, hx, rfl, rfl⟩
    exact hr.entered x hx

theorem Recalls.known_iff (h : Recalls ms a) :
    (a.names.get? p).isSome ↔ p ∈ (entries ms).map (·.player) := by
  simp only [Option.isSome_iff_exists, List.mem_map, h.names_iff]
  constructor
  · rintro ⟨_, x, hx, -, rfl⟩
    exact ⟨x, hx, rfl⟩
  · rintro ⟨x, hx, rfl⟩
    exact ⟨_, x, hx, rfl, rfl⟩

theorem entries_cons (m : Moment Accounts Call) (ms : List (Moment Accounts Call)) :
    entries (m :: ms) = (success? m).toList ++ entries ms := by
  unfold entries
  rw [List.filterMap_cons]
  cases success? m <;> rfl

theorem Recalls.idle (h : Recalls ms a) {c : Call} (hc : success? ⟨a, c⟩ = none)
    (hr : ∀ q, recorded? q (⟨a, c⟩ :: ms) = recorded? q ms) : Recalls (⟨a, c⟩ :: ms) a := by
  have he : entries (⟨a, c⟩ :: ms) = entries ms := by rw [entries_cons, hc]; rfl
  refine ⟨h.sound, ?_, ?_, fun q => by rw [h.world, hr]⟩ <;> rw [he]
  · exact h.first
  · exact h.entered

theorem Recalls.login (h : Recalls ms a) (hl : a.login name password = .ok (a', p))
    (hs : a'.size < UInt32.size)
    (hi : a.loginInPlace name password = (a', .ok p)) :
    Recalls (⟨a, .login name password⟩ :: ms) a' := by
  have he : entries (⟨a, .login name password⟩ :: ms) = ⟨name, password, p⟩ :: entries ms := by
    rw [entries_cons]
    simp [success?, hi]
  have hs' := sound_login h.sound hl hs
  have hw : ∀ q, a'.world? q = recorded? q (⟨a, .login name password⟩ :: ms) := by
    intro q
    rw [world?_login h.sound hl hs]
    exact h.world q
  obtain ⟨rfl, known, hk, rfl⟩ | ⟨hn, rfl, rfl⟩ := login_eq_ok hl
  · refine ⟨hs', fun n account ha => ?_, fun x hx => ?_, hw⟩
    · rw [he, first?_cons, h.first n account ha]
      rfl
    · rw [he] at hx
      obtain rfl | hx := List.mem_cons.mp hx
      · exact ⟨known, hk, rfl⟩
      · exact h.entered x hx
  · -- The name is new: nobody has logged in with it.
    have hnew : first? name (entries ms) = none := by
      rw [← Option.not_isSome_iff_eq_none]
      intro hf
      obtain ⟨x, hf⟩ := Option.isSome_iff_exists.mp hf
      obtain ⟨rfl, hx⟩ := name_of_first? hf
      obtain ⟨account, ha, -⟩ := h.entered x hx
      rw [ha] at hn
      cases hn
    refine ⟨hs', fun n account ha => ?_, fun x hx => ?_, hw⟩
    · rw [he, first?_cons]
      obtain ⟨rfl, rfl⟩ | ⟨-, ha⟩ := Table.get?_insert_eq_some_iff.mp ha
      · simp [hnew]
      · rw [h.first n account ha]
        rfl
    · rw [he] at hx
      obtain rfl | hx := List.mem_cons.mp hx
      · exact ⟨_, Table.get?_insert_self .., rfl⟩
      · obtain ⟨account, ha, hp⟩ := h.entered x hx
        refine ⟨account, Table.get?_insert_eq_some_iff.mpr (Or.inr ⟨?_, ha⟩), hp⟩
        intro hxn
        rw [hxn, hn] at ha
        cases ha

theorem Recalls.setWorld (h : Recalls ms a) (p : PlayerId) (world : String) :
    Recalls (⟨a, .setWorld p world⟩ :: ms) (a.setWorld p world) := by
  have he : entries (⟨a, .setWorld p world⟩ :: ms) = entries ms := rfl
  refine ⟨sound_setWorld h.sound, fun n account ha => ?_, fun x hx => ?_, fun q => ?_⟩
  · rw [he]
    rw [get?_setWorld] at ha
    split at ha
    · obtain ⟨known, hk, rfl⟩ := Option.map_eq_some_iff.mp ha
      exact h.first n known hk
    · exact h.first n account ha
  · obtain ⟨account, ha, hp⟩ := h.entered x hx
    rw [get?_setWorld, ha]
    split
    · exact ⟨_, rfl, hp⟩
    · exact ⟨account, rfl, hp⟩
  · change _ = if p = q ∧ q ∈ (entries ms).map (·.player) then some world else recorded? q ms
    rw [← h.world]
    split
    · next hq =>
      obtain ⟨rfl, hq⟩ := hq
      exact world?_setWorld_self h.sound (h.known_iff.mpr hq)
    · next hq =>
      by_cases hpq : p = q
      · subst hpq
        have hn : a.names.get? p = none :=
          Option.not_isSome_iff_eq_none.mp fun hp => hq ⟨rfl, h.known_iff.mp hp⟩
        rw [setWorld_of_none hn]
      · exact world?_setWorld_ne h.sound (Ne.symm hpq)

theorem size_act (a : Accounts) (c : Call) : a.size ≤ (a.act c).size := by
  cases c with
  | login name password =>
    rw [act]
    obtain ⟨a', p, hl, hi⟩ | ⟨e, -, hi⟩ := loginInPlace_cases a name password
    · rw [hi]
      exact size_login hl
    · exact Nat.le_of_eq (by rw [hi])
  | password _ => exact Nat.le_refl _
  | world _ => exact Nat.le_refl _
  | setWorld p world => exact Nat.le_of_eq size_setWorld.symm

theorem recalls_of_run (h : book.Run ms a) (hs : a.size < UInt32.size) : Recalls ms a := by
  induction h with
  | start h =>
    cases h
    exact ⟨sound_new, nofun, nofun, fun _ => rfl⟩
  | @step ms a c _ _ ih =>
    change (a.act c).size < _ at hs
    change Recalls _ (a.act c)
    have ih := ih (Nat.lt_of_le_of_lt (size_act a c) hs)
    cases c with
    | login name password =>
      rw [act] at hs ⊢
      obtain ⟨a', p, hl, hi⟩ | ⟨e, -, hi⟩ := loginInPlace_cases a name password
      · rw [hi] at hs ⊢
        exact ih.login hl hs hi
      · rw [hi]
        exact ih.idle (by simp [success?, hi]) fun _ => rfl
    | password _ => exact ih.idle rfl fun _ => rfl
    | world _ => exact ih.idle rfl fun _ => rfl
    | setWorld p world => exact ih.setWorld p world

theorem Recalls.password?_eq (hr : Recalls ms a) (name : String) :
    a.password? name = (first? name (entries ms)).map (·.password) := by
  unfold password?
  cases ha : a.byName.get? name with
  | some account =>
    rw [hr.first name account ha]
    rfl
  | none =>
    cases hf : first? name (entries ms) with
    | none => rfl
    | some x =>
      obtain ⟨rfl, hx⟩ := name_of_first? hf
      obtain ⟨account, ha', -⟩ := hr.entered x hx
      rw [ha'] at ha
      cases ha

theorem Recalls.name_eq_iff (hr : Recalls ms a) {x y : Entry} (hx : x ∈ entries ms)
    (hy : y ∈ entries ms) : x.name = y.name ↔ x.player = y.player := by
  obtain ⟨account, ha, hp⟩ := hr.entered x hx
  obtain ⟨account', ha', hp'⟩ := hr.entered y hy
  constructor
  · intro hn
    rw [hn, ha'] at ha
    cases ha
    rw [← hp, hp']
  · intro hxy
    have hx := (hr.sound.named x.name account ha).1
    have hy := (hr.sound.named y.name account' ha').1
    rw [hp, hxy, ← hp', hy] at hx
    exact (Option.some.inj hx).symm

/-- A store answers by its calls. -/
structure Lawful (ms : List (Moment Accounts Call)) (a : Accounts) : Prop where
  login_iff : ∀ name password, (∃ p, (a.loginInPlace name password).2 = .ok p) ↔
    name ≠ "" ∧ (a.password? name = none ∨ a.password? name = some password)
  refusal : ∀ name password e, (a.loginInPlace name password).2 = .error e →
    (a.loginInPlace name password).1 = a
  /-- The password of a name is that of its first login. -/
  password : ∀ name, a.password? name = (first? name (entries ms)).map (·.password)
  players : ∀ x ∈ entries ms, x.player.isPlayer
  /-- A name always has the same number, and no two names have one number. -/
  numbers : ∀ x ∈ entries ms, ∀ y ∈ entries ms, x.name = y.name ↔ x.player = y.player
  /-- The two tables are inverse to each other, and hold those who have logged in. -/
  inverse : ∀ name p, a.names.get? p = some name ↔
    ∃ account, a.byName.get? name = some account ∧ account.player = p
  known : ∀ name p, a.names.get? p = some name ↔ ∃ x ∈ entries ms, x.name = name ∧ x.player = p
  world : ∀ p, a.world? p = recorded? p ms

/-- Whatever calls a store has had, as long as the numbers last. -/
theorem lawful_of_run (h : book.Run ms a) (hs : a.size < UInt32.size) : Lawful ms a := by
  have hr := recalls_of_run h hs
  constructor
  case login_iff =>
    intro name password
    rw [← login_isOk_iff]
    obtain ⟨a', p, hl, hi⟩ | ⟨e, hl, hi⟩ := loginInPlace_cases a name password <;> simp [hl, hi]
  case refusal =>
    intro name password e he
    obtain ⟨a', p, -, hi⟩ | ⟨e, -, hi⟩ := loginInPlace_cases a name password <;> rw [hi] at he ⊢
    cases he
  case password => exact hr.password?_eq
  case players =>
    intro x hx
    obtain ⟨account, ha, hp⟩ := hr.entered x hx
    exact hp ▸ (hr.sound.named x.name account ha).2.1
  case numbers =>
    intro x hx y hy
    exact hr.name_eq_iff hx hy
  case inverse => exact hr.sound.names_iff
  case known => exact hr.names_iff
  case world => exact hr.world

def register : List (Moment Accounts Call) × Accounts :=
  book.play [] {} [
    .setWorld ⟨1⟩ "early",
    .login "ann" "x",
    .login "" "x",
    .login "ann" "y",
    .login "bob" "y",
    .setWorld ⟨1⟩ "farm",
    .setWorld ⟨2⟩ "barn",
    .setWorld ⟨7⟩ "nowhere",
    .setWorld ⟨1⟩ "yard",
    .password "ann",
    .world ⟨1⟩,
    .login "ann" "x"]

theorem lawful_of_run_register :
    Lawful register.1 register.2 ∧ register.2.password? "ann" = some "x" ∧
      register.2.world? ⟨1⟩ = some "yard" ∧ register.2.world? ⟨2⟩ = some "barn" := by
  have h : book.Run register.1 register.2 :=
    .play (.start rfl) ⟨trivial, trivial, trivial, trivial, trivial, trivial, trivial, trivial,
      trivial, trivial, trivial, trivial, trivial⟩
  have hl := lawful_of_run h (by decide +kernel)
  refine ⟨hl, ?_, ?_, ?_⟩
  · rw [hl.password]
    decide +kernel
  · rw [hl.world]
    decide +kernel
  · rw [hl.world]
    decide +kernel

end Accounts

end SharedWorld
