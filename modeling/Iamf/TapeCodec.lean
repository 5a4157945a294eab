import Iamf.BitString

/-! Readers and writers as moves along a bit tape. A writer program and the
reader program that undoes it are composed step by step, in the same order, so
no proof about a format has to reason about positions. Nothing here names a
format; reader state, writer state and errors are arbitrary types. -/
namespace Iamf.TapeCodec

class ReadTape (R : Type) where
  rest : R → List Bool
  advance : Nat → R → R
  restAdvance : ∀ n r, n ≤ (rest r).length → rest (advance n r) = (rest r).drop n
  advanceZero : ∀ r, advance 0 r = r
  advanceAdd : ∀ m n r, m + n ≤ (rest r).length → advance n (advance m r) = advance (m + n) r

class WriteTape (W : Type) where
  append : List Bool → W → W
  appendNil : ∀ w, append [] w = w
  appendAppend : ∀ as bs w, append bs (append as w) = append (as ++ bs) w

open ReadTape WriteTape

section Programs

variable {E σ α β : Type}

theorem bindOk {f : EStateM E σ α} {k : α → EStateM E σ β} {s s' : σ} {u : β}
    (ok : (f >>= k) s = .ok u s') : ∃ v t, f s = .ok v t ∧ k v t = .ok u s' := by
  change EStateM.bind f k s = .ok u s' at ok
  unfold EStateM.bind at ok
  cases head : f s with
  | ok v t => simp only [head] at ok; exact ⟨v, t, rfl, ok⟩
  | error e t => simp [head] at ok

theorem bindOf {f : EStateM E σ α} (k : α → EStateM E σ β) {s t : σ} {v : α}
    (head : f s = .ok v t) : (f >>= k) s = k v t := by
  change EStateM.bind f k s = _
  simp only [EStateM.bind, head]

theorem bindError {f : EStateM E σ α} (k : α → EStateM E σ β) {s t : σ} {e : E}
    (head : f s = .error e t) : (f >>= k) s = .error e t := by
  change EStateM.bind f k s = _
  simp only [EStateM.bind, head]

theorem pureOk (v : α) (s : σ) : (pure v : EStateM E σ α) s = .ok v s := rfl

def ensure (ok : Bool) (e : E) : EStateM E σ Unit := if ok then pure () else throw e

theorem ensureTrue (e : E) : (ensure true e : EStateM E σ Unit) = pure () := rfl

theorem ensureFalse (e : E) (s : σ) : (ensure false e : EStateM E σ Unit) s = .error e s := rfl

theorem ensureOk {ok : Bool} {e : E} {s s' : σ} {u : Unit}
    (h : (ensure ok e : EStateM E σ Unit) s = .ok u s') : ok = true ∧ s' = s := by
  cases ok with
  | false => simp [ensureFalse] at h
  | true => rw [ensureTrue, pureOk] at h; cases h; exact ⟨rfl, rfl⟩

def orThrow : Except E α → EStateM E σ α
  | .ok v => pure v
  | .error e => throw e

theorem orThrowOk {x : Except E α} {s s' : σ} {v : α} (h : orThrow x s = .ok v s') :
    x = .ok v ∧ s' = s := by
  cases x with
  | error e => cases h
  | ok u => cases h; exact ⟨rfl, rfl⟩

theorem orThrowOf {x : Except E α} (k : α → EStateM E σ β) {v : α} (h : x = .ok v) :
    (orThrow x >>= k) = k v := by
  subst h
  rfl

theorem exceptBindOk {x : Except E α} {k : α → Except E β} {u : β} (ok : (x >>= k) = .ok u) :
    ∃ v, x = .ok v ∧ k v = .ok u := by
  cases x with
  | error e => cases ok
  | ok v => exact ⟨v, rfl, ok⟩

theorem exceptBindOf {x : Except E α} (k : α → Except E β) {v : α} (head : x = .ok v) :
    (x >>= k) = k v := by
  subst head
  rfl

def readMany (f : EStateM E σ α) : Nat → EStateM E σ (List α)
  | 0 => pure []
  | n+1 => do
    let v ← f
    let rest ← readMany f n
    pure (v :: rest)

def writeEach (g : α → EStateM E σ Unit) : List α → EStateM E σ Unit
  | [] => pure ()
  | v :: rest => do
    g v
    writeEach g rest

def Refuses (g : EStateM E σ Unit) : Prop := ∀ s, ∃ e s', g s = .error e s'

theorem refusesThrow (e : E) : Refuses (throw e : EStateM E σ Unit) :=
  fun s => ⟨e, s, rfl⟩

theorem refusesEnsure {ok : Bool} {e : E} (bad : ok = false) :
    Refuses (ensure ok e : EStateM E σ Unit) := by
  subst bad
  exact fun s => ⟨e, s, rfl⟩

theorem refusesBind {g : EStateM E σ Unit} (k : Unit → EStateM E σ Unit) (first : Refuses g) :
    Refuses (g >>= k) := by
  intro s
  obtain ⟨e, s', failed⟩ := first s
  exact ⟨e, s', bindError k failed⟩

end Programs

section Directions

variable {E F R W α β : Type} [ReadTape R] [WriteTape W]

def phase (r : R) : Nat := (8 - (rest r).length % 8) % 8

theorem phaseAdvance {n : Nat} {r : R} (inside : n ≤ (rest r).length) :
    phase (advance n r) = (phase r + n) % 8 := by
  unfold phase
  rw [restAdvance n r inside, List.length_drop]
  omega

/-- `f`, started at bit `φ` of an octet in front of `bs`, returns `v` and stops behind `bs`,
whatever follows. -/
def Reads (φ : Nat) (f : EStateM E R α) (bs : List Bool) (v : α) : Prop :=
  ∀ r tail, phase r = φ % 8 → rest r = bs ++ tail → f r = .ok v (advance bs.length r)

def Emits (g : EStateM F W Unit) (bs : List Bool) : Prop := ∀ w, g w = .ok () (append bs w)

/-- Either the writer refuses, or the reader gives `v` back from what was written.
`φ` and `ψ` are the bit offsets before and behind the field. -/
def Paired (φ ψ : Nat) (g : EStateM F W Unit) (f : EStateM E R α) (v : α) : Prop :=
  Refuses g ∨ ∃ bs, (φ + bs.length) % 8 = ψ % 8 ∧ Emits g bs ∧ Reads φ f bs v

def Consumes (f : EStateM E R α) (Q : α → List Bool → Prop) : Prop :=
  ∀ r v r', f r = .ok v r' → ∃ bs tail, rest r = bs ++ tail ∧ r' = advance bs.length r ∧ Q v bs

/-- `g` emits at most as many bits as `bs` has, ending at the same bit of an octet, and `bs`
itself when the input was canonical. -/
def Rewrites (canonical : Prop) (g : EStateM F W Unit) (bs : List Bool) : Prop :=
  ∃ out, Emits g out ∧ out.length ≤ bs.length ∧ out.length % 8 = bs.length % 8 ∧ (canonical → out = bs)

theorem readsBehind {φ : Nat} {f : EStateM E R α} {bs cs : List Bool} {v : α} {r : R}
    (reads : Reads (φ + bs.length) f cs v) (offset : phase r = φ % 8) {tail : List Bool}
    (split : rest r = bs ++ (cs ++ tail)) :
    f (advance bs.length r) = .ok v (advance (bs ++ cs).length r) := by
  have inside : bs.length ≤ (rest r).length := by simp [split]
  have here : rest (advance bs.length r) = cs ++ tail := by
    rw [restAdvance _ _ inside, split, List.drop_left]
  have behind : phase (advance bs.length r) = (φ + bs.length) % 8 := by
    rw [phaseAdvance inside, offset]; omega
  rw [reads _ tail behind here, advanceAdd _ _ _ (by simp [split]), List.length_append]

theorem readsBind {φ : Nat} {f : EStateM E R α} {k : α → EStateM E R β} {bs cs : List Bool} {v u}
    (first : Reads φ f bs v) (next : Reads (φ + bs.length) (k v) cs u) :
    Reads φ (f >>= k) (bs ++ cs) u := by
  intro r tail offset split
  rw [List.append_assoc] at split
  rw [bindOf k (first r (cs ++ tail) offset split)]
  exact readsBehind next offset split

theorem readsPure (φ : Nat) (v : α) : Reads φ (pure v : EStateM E R α) [] v := by
  intro r tail _ _
  rw [pureOk, List.length_nil, advanceZero]

theorem readsReturn {φ : Nat} {f : EStateM E R α} {j : α → EStateM E R β} {bs : List Bool} {v u}
    (reads : Reads φ f bs v) (last : j v = pure u) : Reads φ (f >>= j) bs u := by
  have both := readsBind (k := j) reads (show Reads _ (j v) [] u by rw [last]; exact readsPure _ u)
  rwa [List.append_nil] at both

theorem emitsPure : Emits (pure () : EStateM F W Unit) [] := by
  intro w
  rw [pureOk, appendNil]

theorem emitsBind {g : EStateM F W Unit} {k : Unit → EStateM F W Unit} {bs cs : List Bool}
    (first : Emits g bs) (next : Emits (k ()) cs) : Emits (g >>= k) (bs ++ cs) := by
  intro w
  rw [bindOf k (first w), next, appendAppend]

theorem refusesNext {g : EStateM F W Unit} {k : Unit → EStateM F W Unit} {bs : List Bool}
    (first : Emits g bs) (next : Refuses (k ())) : Refuses (g >>= k) := by
  intro w
  obtain ⟨e, w', failed⟩ := next (append bs w)
  exact ⟨e, w', by rw [bindOf k (first w), failed]⟩

end Directions

section Pairs

variable {E F R W α β : Type} [ReadTape R] [WriteTape W]

theorem pairedBind {φ χ ψ : Nat} {g : EStateM F W Unit} {k : Unit → EStateM F W Unit}
    {f : EStateM E R α} {j : α → EStateM E R β} {v u}
    (first : Paired φ χ g f v) (next : Paired χ ψ (k ()) (j v) u) :
    Paired φ ψ (g >>= k) (f >>= j) u := by
  rcases first with refused | ⟨bs, bsPhase, emits, reads⟩
  · exact .inl (refusesBind k refused)
  rcases next with refused | ⟨cs, csPhase, more, further⟩
  · exact .inl (refusesNext emits refused)
  refine .inr ⟨bs ++ cs, by rw [List.length_append]; omega, emitsBind emits more, readsBind reads ?_⟩
  intro r tail offset split
  exact further r tail (by omega) split

theorem pairedReturn {φ ψ : Nat} {g : EStateM F W Unit} {f : EStateM E R α} {j : α → EStateM E R β}
    {v u} (first : Paired φ ψ g f v) (last : j v = pure u) : Paired φ ψ g (f >>= j) u := by
  rcases first with refused | ⟨bs, bsPhase, emits, reads⟩
  · exact .inl refused
  exact .inr ⟨bs, bsPhase, emits, readsReturn reads last⟩

theorem pairedPhase {φ ψ ψ' : Nat} {g : EStateM F W Unit} {f : EStateM E R α} {v}
    (paired : Paired φ ψ g f v) (same : ψ % 8 = ψ' % 8) : Paired φ ψ' g f v := by
  rcases paired with refused | ⟨bs, bsPhase, emits, reads⟩
  · exact .inl refused
  · exact .inr ⟨bs, by omega, emits, reads⟩

theorem pairedPure (φ : Nat) (v : α) :
    Paired φ φ (pure () : EStateM F W Unit) (pure v : EStateM E R α) v :=
  .inr ⟨[], by simp, emitsPure, readsPure φ v⟩

theorem emitsEach {g : α → EStateM F W Unit} {n : Nat} (each : ∀ v, ∃ bs, bs.length = n ∧ Emits (g v) bs)
    (vs : List α) : ∃ bs, bs.length = n * vs.length ∧ Emits (writeEach g vs) bs := by
  induction vs with
  | nil => exact ⟨[], rfl, emitsPure⟩
  | cons v vs ih =>
    obtain ⟨bs, length, emits⟩ := each v
    obtain ⟨cs, lengths, others⟩ := ih
    refine ⟨bs ++ cs, ?_, emitsBind emits others⟩
    rw [List.length_append, length, lengths, List.length_cons, Nat.mul_succ, Nat.add_comm]

theorem pairedGuard {φ ψ : Nat} {ok : Bool} {e : F} {k : Unit → EStateM F W Unit}
    {f : EStateM E R α} {v} (next : ok = true → Paired φ ψ (k ()) f v) :
    Paired φ ψ (ensure ok e >>= k) f v := by
  cases ok with
  | false => exact .inl (refusesBind k fun w => ⟨e, w, rfl⟩)
  | true =>
    rcases next rfl with refused | ⟨bs, bsPhase, emits, reads⟩
    · exact .inl (refusesNext emitsPure refused)
    · exact .inr ⟨bs, bsPhase, emitsBind (show Emits (ensure true e) [] from emitsPure) emits, reads⟩

theorem pairedChecked {φ ψ : Nat} {ok : Bool} {e : E} {g : EStateM F W Unit}
    {j : Unit → EStateM E R α} {v} (good : ok = true) (next : Paired φ ψ g (j ()) v) :
    Paired φ ψ g (ensure ok e >>= j) v := by
  subst good
  rcases next with refused | ⟨bs, bsPhase, emits, reads⟩
  · exact .inl refused
  · exact .inr ⟨bs, bsPhase, emits, readsBind (show Reads φ (ensure true e) [] () from readsPure φ ()) reads⟩

def PairedLast (φ : Nat) (g : EStateM F W Unit) (f : EStateM E R α) (v : α) : Prop :=
  Refuses g ∨ ∃ bs, (φ + bs.length) % 8 = 0 ∧ Emits g bs ∧
    ∀ r, phase r = φ % 8 → rest r = bs → f r = .ok v (advance bs.length r)

theorem pairedLastOf {φ : Nat} {g : EStateM F W Unit} {f : EStateM E R α} {v} (paired : Paired φ 0 g f v) :
    PairedLast φ g f v := by
  rcases paired with refused | ⟨bs, bsPhase, emits, reads⟩
  · exact .inl refused
  · exact .inr ⟨bs, bsPhase, emits, fun r offset split => reads r [] offset (by rw [split, List.append_nil])⟩

theorem pairedLastBind {φ χ : Nat} {g : EStateM F W Unit} {k : Unit → EStateM F W Unit}
    {f : EStateM E R α} {j : α → EStateM E R β} {v u}
    (first : Paired φ χ g f v) (next : PairedLast χ (k ()) (j v) u) : PairedLast φ (g >>= k) (f >>= j) u := by
  rcases first with refused | ⟨bs, bsPhase, emits, reads⟩
  · exact .inl (refusesBind k refused)
  rcases next with refused | ⟨cs, csPhase, more, further⟩
  · exact .inl (refusesNext emits refused)
  refine .inr ⟨bs ++ cs, by rw [List.length_append]; omega, emitsBind emits more, fun r offset split => ?_⟩
  have inside : bs.length ≤ (rest r).length := by rw [split]; simp
  have here : rest (advance bs.length r) = cs := by rw [restAdvance _ _ inside, split, List.drop_left]
  have behind : phase (advance bs.length r) = χ % 8 := by rw [phaseAdvance inside, offset]; omega
  rw [bindOf j (reads r cs offset split), further _ behind here, advanceAdd _ _ _ (by rw [split]; simp),
    List.length_append]

theorem pairedLastReturn {φ : Nat} {g : EStateM F W Unit} {f : EStateM E R α} {j : α → EStateM E R β} {v u}
    (first : PairedLast φ g f v) (last : j v = pure u) : PairedLast φ g (f >>= j) u := by
  rcases first with refused | ⟨bs, bsPhase, emits, reads⟩
  · exact .inl refused
  · exact .inr ⟨bs, bsPhase, emits, fun r offset split => by rw [bindOf j (reads r offset split), last, pureOk]⟩

theorem pairedLastGuard {φ : Nat} {ok : Bool} {e : F} {k : Unit → EStateM F W Unit} {f : EStateM E R α} {v}
    (next : ok = true → PairedLast φ (k ()) f v) : PairedLast φ (ensure ok e >>= k) f v := by
  cases ok with
  | false => exact .inl (refusesBind k fun w => ⟨e, w, rfl⟩)
  | true =>
    rcases next rfl with refused | ⟨bs, bsPhase, emits, reads⟩
    · exact .inl (refusesNext emitsPure refused)
    · exact .inr ⟨bs, bsPhase, emitsBind emitsPure emits, reads⟩

theorem pairedMany {φ : Nat} {g : α → EStateM F W Unit} {f : EStateM E R α} {vs : List α}
    (each : ∀ v ∈ vs, Paired φ φ (g v) f v) :
    Paired φ φ (writeEach g vs) (readMany f vs.length) vs := by
  induction vs with
  | nil => exact pairedPure φ []
  | cons v vs ih =>
    refine pairedBind (each v (by simp)) ?_
    exact pairedReturn (ih fun u mem => each u (List.mem_cons_of_mem v mem)) rfl

def Hungry (f : EStateM E R α) : Prop := ∀ r, rest r = [] → ∃ e r', f r = .error e r'

theorem hungryBind {f : EStateM E R α} (j : α → EStateM E R β) (hungry : Hungry f) :
    Hungry (f >>= j) := by
  intro r empty
  obtain ⟨e, r', failed⟩ := hungry r empty
  exact ⟨e, r', bindError j failed⟩

theorem hungryOctet {f : EStateM E R α} {bs : List Bool} {v : α} {r : R} (hungry : Hungry f)
    (empty : rest r = []) (octets : bs.length % 8 = 0) (reads : Reads 0 f bs v) :
    8 ≤ bs.length := by
  by_contra short
  have none : bs = [] := List.length_eq_zero_iff.mp (by omega)
  subst none
  have ok := reads r [] (by simp [phase, empty]) (by simpa using empty)
  obtain ⟨e, r', failed⟩ := hungry r empty
  rw [failed] at ok
  contradiction

theorem manyOctets {g : α → EStateM F W Unit} {f : EStateM E R α} {vs : List α} {r : R}
    (hungry : Hungry f) (empty : rest r = []) (each : ∀ v ∈ vs, Paired 0 0 (g v) f v) :
    Refuses (writeEach g vs) ∨ ∃ bs, bs.length % 8 = 0 ∧ 8 * vs.length ≤ bs.length ∧
      Emits (writeEach g vs) bs ∧ Reads 0 (readMany f vs.length) bs vs := by
  induction vs with
  | nil => exact .inr ⟨[], by simp, by simp, emitsPure, readsPure 0 []⟩
  | cons v vs ih =>
    rcases each v (by simp) with refused | ⟨bs, octets, emits, reads⟩
    · exact .inl (refusesBind _ refused)
    rcases ih fun u mem => each u (List.mem_cons_of_mem v mem) with
      refused | ⟨cs, more, long, further, rest⟩
    · exact .inl (refusesNext emits refused)
    have octet := hungryOctet hungry empty (by omega) reads
    refine .inr ⟨bs ++ cs, by simp; omega, by simp; omega, emitsBind emits further, ?_⟩
    refine readsBind reads ?_
    have tail : Reads (0 + bs.length) (readMany f vs.length) cs vs :=
      fun r tail offset split => rest r tail (by omega) split
    exact readsReturn tail rfl

end Pairs

section Consumption

variable {E F R W α β : Type} [ReadTape R] [WriteTape W]

theorem consumesMono {f : EStateM E R α} {P Q : α → List Bool → Prop}
    (h : Consumes f P) (weaker : ∀ v bs, P v bs → Q v bs) : Consumes f Q := by
  intro r v r' ok
  obtain ⟨bs, tail, split, moved, post⟩ := h r v r' ok
  exact ⟨bs, tail, split, moved, weaker v bs post⟩

theorem consumesBind {f : EStateM E R α} {k : α → EStateM E R β} {P : α → List Bool → Prop}
    {Q : β → List Bool → Prop} (first : Consumes f P)
    (next : ∀ v bs, P v bs → Consumes (k v) fun u cs => Q u (bs ++ cs)) : Consumes (f >>= k) Q := by
  intro r u r' ok
  obtain ⟨v, s, head, last⟩ := bindOk ok
  obtain ⟨bs, tail, split, moved, post⟩ := first r v s head
  subst moved
  obtain ⟨cs, tail', split', moved', post'⟩ := next v bs post _ u r' last
  have inside : bs.length ≤ (rest r).length := by simp [split]
  rw [restAdvance _ _ inside, split, List.drop_left] at split'
  subst split'
  refine ⟨bs ++ cs, tail', by rw [split, List.append_assoc], ?_, post'⟩
  rw [moved', advanceAdd _ _ _ (by simp [split]), List.length_append]

theorem consumesPure {v : α} {Q : α → List Bool → Prop} (post : Q v []) :
    Consumes (pure v : EStateM E R α) Q := by
  intro r u r' ok
  cases ok
  exact ⟨[], rest r, rfl, (advanceZero r).symm, post⟩

theorem consumesThrow (e : E) (Q : α → List Bool → Prop) :
    Consumes (throw e : EStateM E R α) Q := by
  intro r u r' ok
  cases ok

theorem consumesOrThrow {x : Except E α} {Q : α → List Bool → Prop} (post : ∀ v, x = .ok v → Q v []) :
    Consumes (orThrow x : EStateM E R α) Q := by
  cases x with
  | error e => exact consumesThrow e Q
  | ok v => exact consumesPure (post v rfl)

theorem consumesEnsure {ok : Bool} {e : E} {k : Unit → EStateM E R α} {Q : α → List Bool → Prop}
    (next : ok = true → Consumes (k ()) Q) : Consumes (ensure ok e >>= k) Q := by
  cases ok with
  | false => intro r u r' h; cases h
  | true => exact next rfl

theorem consumesMany {f : EStateM E R α} {P : α → List Bool → Prop} {Q : List α → List Bool → Prop}
    (first : Consumes f P) (nil : Q [] [])
    (cons : ∀ v vs bs cs, P v bs → Q vs cs → Q (v :: vs) (bs ++ cs)) (n : Nat) :
    Consumes (readMany f n) fun vs bs => vs.length = n ∧ Q vs bs := by
  induction n with
  | zero => exact consumesPure ⟨rfl, nil⟩
  | succ n ih =>
    refine consumesBind first fun v bs post => consumesBind ih fun vs cs both => ?_
    refine consumesPure ⟨by simp [both.1], ?_⟩
    simpa using cons v vs bs cs post both.2

variable {canonical : Prop}

theorem rewritesPure : Rewrites canonical (pure () : EStateM F W Unit) [] :=
  ⟨[], emitsPure, by simp, rfl, fun _ => rfl⟩

theorem rewritesBind {g : EStateM F W Unit} {k : Unit → EStateM F W Unit} {bs cs : List Bool}
    (first : Rewrites canonical g bs) (next : Rewrites canonical (k ()) cs) :
    Rewrites canonical (g >>= k) (bs ++ cs) := by
  obtain ⟨out, emits, short, octet, same⟩ := first
  obtain ⟨out', emits', short', octet', same'⟩ := next
  refine ⟨out ++ out', emitsBind emits emits', by simp; omega, by simp; omega, fun c => ?_⟩
  rw [same c, same' c]

theorem rewritesGuard {ok : Bool} {e : F} {k : Unit → EStateM F W Unit} {bs : List Bool}
    (good : ok = true) (next : Rewrites canonical (k ()) bs) :
    Rewrites canonical (ensure ok e >>= k) bs := by
  subst good
  exact rewritesBind (show Rewrites canonical (ensure true e) [] from rewritesPure) next

theorem rewritesMany {f : EStateM E R α} {g : α → EStateM F W Unit} {G : α → Prop} (n : Nat)
    (each : Consumes f fun v bs => Rewrites canonical (g v) bs ∧ G v) :
    Consumes (readMany f n) fun vs bs => vs.length = n ∧ Rewrites canonical (writeEach g vs) bs ∧
      ∀ v ∈ vs, G v := by
  refine consumesMany (Q := fun vs bs => Rewrites canonical (writeEach g vs) bs ∧ ∀ v ∈ vs, G v) each
    ⟨rewritesPure, by simp⟩ ?_ n
  rintro v vs bs cs ⟨head, good⟩ ⟨tail, all⟩
  exact ⟨rewritesBind head tail, List.forall_mem_cons.mpr ⟨good, all⟩⟩

end Consumption

end Iamf.TapeCodec
