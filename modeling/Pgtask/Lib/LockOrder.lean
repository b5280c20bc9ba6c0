import Mathlib.Order.Lattice
import Pgtask.Lib.Footprint

/-!
# Locks in order

Some rows have a rank. A transaction is orderly if it asks for such a row only when
all those that it holds rank lower, or when it holds the row already. Orderly
transactions never wait for each other in a cycle.
-/

namespace ReadCommitted

variable {D κ : Type} {ρ : κ → Type} {α β γ ι ω : Type}

/-! ## Modes -/

/-- Whoever stands against the second mode stands against the first. -/
def LockMode.covers (m m' : LockMode) : Bool :=
  [LockMode.keyShare, .share, .noKeyUpdate, .update].all fun other => !other.conflicts m' || other.conflicts m

theorem LockMode.covers_conflicts {m m' other : LockMode} (h : m.covers m' = true)
    (conflict : other.conflicts m' = true) : other.conflicts m = true := by
  unfold covers at h
  cases other <;> simp_all

/-! ## Orderly programs -/

section Programs

variable [Preorder ω] (rank : κ → Option ω) (row : (r : κ) → Option (ρ r) → Prop)

def Permits (held : Held κ) (r : κ) (m : LockMode) : Prop :=
  ∀ a, rank r = some a → (∃ m', (r, m') ∈ held ∧ m'.covers m = true) ∨
    ∀ r' m' a', (r', m') ∈ held → rank r' = some a' → a' < a

/-- From here the program asks for its locks in order and ends in `Q`. `row` says which values the
rows can have, and what the program writes is one of them. -/
def Orderly [Store D κ ρ] (Q : α → Held κ → Prop) : Prog D κ ρ α → Held κ → Prop
  | .ret a, held => Q a held
  | .raise, _ => True
  | .read next, held => ∀ d : D, (∀ r, row r (Store.get d r)) → Orderly Q (next d) held
  | .lock r m next, held =>
    Permits rank held r m ∧ ∀ v, row r v → Orderly Q (next v) ((r, m) :: held)
  | .tryLock r m next, held =>
    Orderly Q (next none) held ∧ ∀ v, row r v → Orderly Q (next (some v)) ((r, m) :: held)
  | .write r v next, held => row r v ∧ Orderly Q next held
  | .insert r v next, held => Permits rank held r .update ∧ row r (some v) ∧ Orderly Q (next false) held ∧
    Orderly Q (next true) ((r, .update) :: held)

variable {rank} {row}

theorem permits_of_none {held : Held κ} {r : κ} {m : LockMode} (h : rank r = none) : Permits rank held r m := by
  intro a ha
  rw [h] at ha
  cases ha

theorem permits_of_held {held : Held κ} {r : κ} {m m' : LockMode} (h : (r, m') ∈ held)
    (covers : m'.covers m = true) : Permits rank held r m :=
  fun _ _ => .inl ⟨m', h, covers⟩

variable [Store D κ ρ]

theorem Orderly.mono {Q Q' : α → Held κ → Prop} (h : ∀ a held, Q a held → Q' a held) {prog : Prog D κ ρ α}
    {held : Held κ} (hp : Orderly rank row Q prog held) : Orderly rank row Q' prog held := by
  induction prog generalizing held with
  | ret a => exact h a held hp
  | raise => trivial
  | read next ih => exact fun d hd => ih d (hp d hd)
  | lock r m next ih => exact ⟨hp.1, fun v hv => ih v (hp.2 v hv)⟩
  | tryLock r m next ih => exact ⟨ih none hp.1, fun v hv => ih (some v) (hp.2 v hv)⟩
  | write r v next ih => exact ⟨hp.1, ih hp.2⟩
  | insert r v next ih => exact ⟨hp.1, hp.2.1, ih false hp.2.2.1, ih true hp.2.2.2⟩

theorem Orderly.bind {Q : β → Held κ → Prop} {prog : Prog D κ ρ α} {f : α → Prog D κ ρ β} {held : Held κ}
    (h : Orderly rank row (fun a => Orderly rank row Q (f a)) prog held) :
    Orderly rank row Q (prog >>= f) held := by
  change Orderly rank row Q (prog.bind f) held
  induction prog generalizing held with
  | ret a => exact h
  | raise => trivial
  | read next ih => exact fun d hd => ih d (h d hd)
  | lock r m next ih => exact ⟨h.1, fun v hv => ih v (h.2 v hv)⟩
  | tryLock r m next ih => exact ⟨ih none h.1, fun v hv => ih (some v) (h.2 v hv)⟩
  | write r v next ih => exact ⟨h.1, ih h.2⟩
  | insert r v next ih => exact ⟨h.1, h.2.1, ih false h.2.2.1, ih true h.2.2.2⟩

theorem Orderly.andThen {A : α → Held κ → Prop} {Q : β → Held κ → Prop} {prog : Prog D κ ρ α}
    {f : α → Prog D κ ρ β} {held : Held κ} (h : Orderly rank row A prog held)
    (next : ∀ a held, A a held → Orderly rank row Q (f a) held) : Orderly rank row Q (prog >>= f) held :=
  .bind (h.mono next)

theorem orderly_snapshot {Q : α → Held κ → Prop} {f : D → Prog D κ ρ α} {held : Held κ}
    (next : ∀ d, (∀ r, row r (Store.get d r)) → Orderly rank row Q (f d) held) :
    Orderly rank row Q (Prog.snapshot >>= f) held :=
  .bind next

theorem orderly_lockRow {Q : α → Held κ → Prop} {r : κ} {m : LockMode} {f : Option (ρ r) → Prog D κ ρ α}
    {held : Held κ} (permits : Permits rank held r m)
    (next : ∀ v, row r v → Orderly rank row Q (f v) ((r, m) :: held)) :
    Orderly rank row Q (Prog.lockRow r m >>= f) held :=
  .bind ⟨permits, next⟩

theorem orderly_put {Q : α → Held κ → Prop} {r : κ} {v : ρ r} {f : Unit → Prog D κ ρ α} {held : Held κ}
    (value : row r (some v)) (next : Orderly rank row Q (f ()) held) :
    Orderly rank row Q (Prog.put r v >>= f) held :=
  .bind ⟨value, next⟩

theorem orderly_of_all {locks : κ → Prop} {writes : (r : κ) → Option (ρ r) → Prop}
    (values : ∀ r v, writes r v → row r v) {prog : Prog D κ ρ α} {held : Held κ} (h : prog.All locks writes) :
    Orderly (ω := ω) (fun _ => none) row (fun _ _ => True) prog held := by
  induction prog generalizing held with
  | ret a => trivial
  | raise => trivial
  | read next ih => exact fun d _ => ih d (h d)
  | lock r m next ih => exact ⟨permits_of_none rfl, fun v _ => ih v (h.2 v)⟩
  | tryLock r m next ih => exact ⟨ih none (h.2 none), fun v _ => ih (some v) (h.2 (some v))⟩
  | write r v next ih => exact ⟨values r v h.1, ih h.2⟩
  | insert r v next ih =>
    exact ⟨permits_of_none rfl, values r _ h.2.1, ih false (h.2.2 false), ih true (h.2.2 true)⟩

theorem Orderly.forEach {f : β → Prog D κ ρ Unit} {I : List β → Held κ → Prop} {l : List β} {held : Held κ}
    (step : ∀ b bs held, I (b :: bs) held → Orderly rank row (fun _ => I bs) (f b) held) (h : I l held) :
    Orderly rank row (fun _ => I []) (Prog.forEach f l) held := by
  induction l generalizing held with
  | nil => exact h
  | cons b bs ih => exact (step b bs held h).andThen fun _ _ => ih

theorem Orderly.collect {f : β → Prog D κ ρ (List γ)} {I : List β → Held κ → Prop} {A : γ → Prop} {l : List β}
    {held : Held κ} (step : ∀ b bs held, I (b :: bs) held →
      Orderly rank row (fun cs held => (∀ c ∈ cs, A c) ∧ I bs held) (f b) held) (h : I l held) :
    Orderly rank row (fun cs held => (∀ c ∈ cs, A c) ∧ I [] held) (Prog.collect f l) held := by
  induction l generalizing held with
  | nil => exact ⟨nofun, h⟩
  | cons b bs ih =>
    refine (step b bs held h).andThen fun cs held hcs => ?_
    refine (ih hcs.2).andThen fun cs' held hcs' => ⟨?_, hcs'.2⟩
    exact List.forall_mem_append.mpr ⟨hcs.1, hcs'.1⟩

end Programs

/-! ## Interleavings -/

section Interleavings

/-- The transaction `i` waits for a lock on one of the rows, and `j` holds a lock that stands
against it. -/
def WaitsFor (on : κ → Prop) (s : System D κ ρ α ι) (i j : ι) : Prop :=
  ∃ r m next held ws m', s.txns i = .active (.lock r m next) held ws ∧ on r ∧ i ≠ j ∧
    (r, m') ∈ (s.txns j).held ∧ m'.conflicts m = true

def Txn.asks : Txn D κ ρ α → Option (κ × LockMode)
  | .active (.lock r m _) _ _ => some (r, m)
  | _ => none

theorem Txn.asks_eq_some {t : Txn D κ ρ α} {r : κ} {m : LockMode} :
    t.asks = some (r, m) ↔ ∃ next held ws, t = .active (.lock r m next) held ws := by
  constructor
  · intro h
    unfold asks at h
    split at h
    · cases h
      exact ⟨_, _, _, rfl⟩
    · cases h
  · rintro ⟨next, held, ws, rfl⟩
    rfl

theorem waitsFor_iff {on : κ → Prop} {s : System D κ ρ α ι} {i j : ι} : WaitsFor on s i j ↔
    i ≠ j ∧ ∃ x ∈ (s.txns i).asks, on x.1 ∧ ∃ l ∈ (s.txns j).held, l.1 = x.1 ∧ l.2.conflicts x.2 = true := by
  constructor
  · rintro ⟨r, m, next, held, ws, m', hi, hon, hne, hheld, hconflict⟩
    exact ⟨hne, (r, m), Txn.asks_eq_some.mpr ⟨next, held, ws, hi⟩, hon, (r, m'), hheld, rfl, hconflict⟩
  · rintro ⟨hne, ⟨r, m⟩, hasks, hon, ⟨_, m'⟩, hheld, rfl, hconflict⟩
    obtain ⟨next, held, ws, hi⟩ := Txn.asks_eq_some.mp hasks
    exact ⟨_, m, next, held, ws, m', hi, hon, hne, hheld, hconflict⟩

instance {on : κ → Prop} [DecidablePred on] [DecidableEq κ] [DecidableEq ι] (s : System D κ ρ α ι) (i j : ι) :
    Decidable (WaitsFor on s i j) :=
  decidable_of_iff _ waitsFor_iff.symm

variable [Preorder ω] [Store D κ ρ] {ranks : ι → κ → Option ω} {rank : κ → Option ω}
  {row : (r : κ) → Option (ρ r) → Prop} {s : System D κ ρ α ι}

/-- Every transaction is orderly from where it stands, each for its own ranks. -/
structure InOrder (ranks : ι → κ → Option ω) (row : (r : κ) → Option (ρ r) → Prop) (s : System D κ ρ α ι) :
    Prop where
  rows : ∀ r, row r (Store.get s.db r)
  compatible : ∀ i j, i ≠ j → Compatible (s.txns i).held (s.txns j).held
  orderly : ∀ i prog held ws, s.txns i = .active prog held ws →
    Orderly (ranks i) row (fun _ _ => True) prog held ∧ ∀ w ∈ ws, row w.1 w.2

theorem inOrder_start {d : D} {progs : ι → Prog D κ ρ α} (rows : ∀ r, row r (Store.get d r))
    (h : ∀ i, Orderly (ranks i) row (fun _ _ => True) (progs i) []) : InOrder ranks row (System.start d progs) := by
  refine ⟨rows, fun i j _ r m m' hm => ?_, fun i prog held ws hi => ?_⟩
  · cases hm
  · cases hi
    exact ⟨h i, nofun⟩

theorem view_rows {d : D} {ws : Writes κ ρ} (rows : ∀ r, row r (Store.get d r)) (written : ∀ w ∈ ws, row w.1 w.2)
    (r : κ) : row r (Store.get (view ws d) r) := by
  rcases get_view_cases ws d r with same | mem
  · rw [same]
    exact rows r
  · exact written _ mem

theorem InOrder.above (h : InOrder ranks row s) {i j : ι} {r : κ} {m m' : LockMode}
    {next : Option (ρ r) → Prog D κ ρ α} {held : Held κ} {ws : Writes κ ρ}
    (hi : s.txns i = .active (.lock r m next) held ws) (hij : i ≠ j) (blocked : (r, m') ∈ (s.txns j).held)
    (conflict : m'.conflicts m = true) {a : ω} (ha : ranks i r = some a) :
    ∀ r' m'' a', (r', m'') ∈ held → ranks i r' = some a' → a' < a := by
  refine ((h.orderly i _ held ws hi).1.1 a ha).resolve_left ?_
  -- A row that it holds already it would have got.
  rintro ⟨own, hown, covers⟩
  have compatible := h.compatible i j hij
  rw [hi] at compatible
  have hno := compatible r own m' hown blocked
  rw [LockMode.conflicts_comm, LockMode.covers_conflicts covers conflict] at hno
  cases hno

def StandsAt (rank : κ → Option ω) (s : System D κ ρ α ι) (i : ι) (a : ω) : Prop :=
  ∃ r m next held ws, s.txns i = .active (.lock r m next) held ws ∧ rank r = some a

variable {on : κ → Prop}

omit [Preorder ω] [Store D κ ρ] in
theorem WaitsFor.standsAt (ranked : ∀ r, on r → ∃ a, rank r = some a) {i j : ι} (h : WaitsFor on s i j) :
    ∃ a, StandsAt rank s i a := by
  obtain ⟨r, m, next, held, ws, m', hi, hon, -⟩ := h
  obtain ⟨a, ha⟩ := ranked r hon
  exact ⟨a, r, m, next, held, ws, hi, ha⟩

theorem InOrder.step_rises (h : InOrder (fun _ => rank) row s) {i j k : ι} {a b : ω} (hij : WaitsFor on s i j)
    (hjk : WaitsFor on s j k) (hi : StandsAt rank s i a) (hj : StandsAt rank s j b) : a < b := by
  obtain ⟨r, m, next, held, ws, m', htxn, -, -, hheld, -⟩ := hij
  obtain ⟨r', m2, next', held', ws', m2', htxn', -, hne, hblocked, hconflict⟩ := hjk
  obtain ⟨_, _, _, _, _, hi, ha⟩ := hi
  obtain ⟨_, _, _, _, _, hj, hb⟩ := hj
  rw [htxn] at hi
  rw [htxn'] at hj
  cases hi
  cases hj
  rw [htxn'] at hheld
  exact h.above htxn' hne hblocked hconflict hb r m' a hheld ha

theorem InOrder.rises (h : InOrder (fun _ => rank) row s) (ranked : ∀ r, on r → ∃ a, rank r = some a) {i j k : ι} {a b : ω}
    (chain : Relation.TransGen (WaitsFor on s) i j) (last : WaitsFor on s j k) (hi : StandsAt rank s i a)
    (hj : StandsAt rank s j b) : a < b := by
  induction chain generalizing k b with
  | single hij => exact h.step_rises hij last hi hj
  | tail _ hjk ih =>
    obtain ⟨c, hc⟩ := hjk.standsAt ranked
    exact (ih hjk hc).trans (h.step_rises hjk last hc hj)

theorem InOrder.no_cycle (h : InOrder (fun _ => rank) row s) (ranked : ∀ r, on r → ∃ a, rank r = some a) (i : ι) :
    ¬ Relation.TransGen (WaitsFor on s) i i := by
  intro cycle
  obtain ⟨j, first, -⟩ := Relation.TransGen.head'_iff.mp cycle
  obtain ⟨a, ha⟩ := first.standsAt ranked
  exact lt_irrefl a (h.rises ranked cycle first ha ha)

theorem InOrder.not_mutual (h : InOrder ranks row s) {i j : ι} {a : ω} (flat : ∀ r, on r → ranks i r = some a)
    (hij : WaitsFor on s i j) : ¬ WaitsFor on s j i := by
  obtain ⟨r, m, next, held, ws, m', hi, hon, hne, hblocked, hconflict⟩ := hij
  rintro ⟨r', m2, next', held', ws', m2', -, hon', -, hheld, -⟩
  rw [hi] at hheld
  exact lt_irrefl a (h.above hi hne hblocked hconflict (flat r hon) r' m2' a hheld (flat r' hon'))

variable [DecidableEq ι]

theorem InOrder.replace (h : InOrder ranks row s) {i : ι} {t : Txn D κ ρ α} {d : D}
    (rows : ∀ r, row r (Store.get d r)) (locks : ∀ j, j ≠ i → Compatible t.held (s.txns j).held)
    (orderly : ∀ prog held ws, t = .active prog held ws →
      Orderly (ranks i) row (fun _ _ => True) prog held ∧ ∀ w ∈ ws, row w.1 w.2) :
    InOrder ranks row ⟨d, Function.update s.txns i t⟩ := by
  refine ⟨rows, fun j k hjk => ?_, fun j prog held ws hj => ?_⟩
  · by_cases hj : j = i
    · subst hj
      simpa [Ne.symm hjk] using locks k (Ne.symm hjk)
    · by_cases hk : k = i
      · subst hk
        simpa [hj] using (locks j hj).symm
      · simpa [hj, hk] using h.compatible j k hjk
  · by_cases hji : j = i
    · subst hji
      exact orderly prog held ws (by simpa using hj)
    · exact h.orderly j prog held ws (by simpa [hji] using hj)

variable [DecidableEq κ] [Fintype ι]

theorem InOrder.turn (h : InOrder ranks row s) (t : Turn ι) : InOrder ranks row (s.turn t) := by
  obtain ⟨i, d, t', hturn, step⟩ := s.turn_step t
  rw [hturn]
  have goes_on : ∀ {prog : Prog D κ ρ α} {held : Held κ} {ws : Writes κ ρ},
      (∀ j, j ≠ i → Compatible held (s.txns j).held) → Orderly (ranks i) row (fun _ _ => True) prog held →
      (∀ w ∈ ws, row w.1 w.2) → InOrder ranks row ⟨s.db, Function.update s.txns i (.active prog held ws)⟩ := by
    intro prog held ws locks orderly written
    refine h.replace h.rows locks fun prog' held' ws' heq => ?_
    cases heq
    exact ⟨orderly, written⟩
  have more : ∀ {ws : Writes κ ρ} {r : κ} {v : Option (ρ r)}, (∀ w ∈ ws, row w.1 w.2) → row r v →
      ∀ w ∈ ws ++ [⟨r, v⟩], row w.1 w.2 := by
    intro ws r v hws hv
    rw [List.forall_mem_append]
    exact ⟨hws, List.forall_mem_singleton.mpr hv⟩
  have same : ∀ j, j ≠ i → Compatible (s.txns i).held (s.txns j).held :=
    fun j hj => h.compatible i j (Ne.symm hj)
  have orderly := h.orderly i
  generalize hi : s.txns i = txn at step same orderly
  cases step with
  | wait =>
    rw [← hi, Function.update_eq_self]
    exact h
  | abort => exact h.replace h.rows (fun j _ r m m' hm => absurd hm List.not_mem_nil) nofun
  | commit a held ws =>
    exact h.replace (view_rows h.rows (orderly _ held ws rfl).2)
      (fun j _ r m m' hm => absurd hm List.not_mem_nil) nofun
  | read next held ws =>
    obtain ⟨hprog, written⟩ := orderly _ held ws rfl
    exact goes_on same (hprog _ (view_rows h.rows written)) written
  | lock r m next held ws granted =>
    obtain ⟨hprog, written⟩ := orderly _ held ws rfl
    exact goes_on (free_compatible granted same) (hprog.2 _ (view_rows h.rows written r)) written
  | tryLock r m next held ws granted =>
    obtain ⟨hprog, written⟩ := orderly _ held ws rfl
    exact goes_on (free_compatible granted same) (hprog.2 _ (view_rows h.rows written r)) written
  | skip r m next held ws =>
    obtain ⟨hprog, written⟩ := orderly _ held ws rfl
    exact goes_on same hprog.1 written
  | write r v next held ws =>
    obtain ⟨hprog, written⟩ := orderly _ held ws rfl
    exact goes_on same hprog.2 (more written hprog.1)
  | found r v next held ws present =>
    obtain ⟨hprog, written⟩ := orderly _ held ws rfl
    exact goes_on same hprog.2.2.1 written
  | insert r v next held ws absent granted =>
    obtain ⟨hprog, written⟩ := orderly _ held ws rfl
    exact goes_on (free_compatible granted same) hprog.2.2.2 (more written hprog.2.1)

theorem interleave_inOrder {d : D} {progs : ι → Prog D κ ρ α} (rows : ∀ r, row r (Store.get d r))
    (orderly : ∀ i, Orderly (ranks i) row (fun _ _ => True) (progs i) []) (turns : List (Turn ι)) :
    InOrder ranks row (interleave d progs turns) :=
  interleave_rule (inOrder_start rows orderly) (fun _ t h => h.turn t) turns

theorem interleave_no_cycle {d : D} {progs : ι → Prog D κ ρ α} (rows : ∀ r, row r (Store.get d r))
    (orderly : ∀ i, Orderly rank row (fun _ _ => True) (progs i) [])
    (ranked : ∀ r, on r → ∃ a, rank r = some a) (turns : List (Turn ι)) (i : ι) :
    ¬ Relation.TransGen (WaitsFor on (interleave d progs turns)) i i :=
  (interleave_inOrder rows orderly turns).no_cycle ranked i

end Interleavings

end ReadCommitted
