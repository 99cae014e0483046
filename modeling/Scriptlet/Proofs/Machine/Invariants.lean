import Scriptlet.Proofs.Machine.Stretches

/-!
# Invariants of a run

What holds in every state that a program can reach, whatever its instructions and their operands:
the program may be hand-written, jump anywhere inside itself, and build arrays that contain
themselves.  All of it follows from what one instruction can do (`Effect`).

## What is here

* `Heap.Holds`, `State.Closed` — every array that is referred to exists.
* `State.lines` — the lines printed, as the text that the stream should hold.
* `Change i s s'` — **what one instruction may do** to the variables, the output and the heap.
* `Proper program s` — the counter is in the program or just behind it, the state is closed, and the
  stream holds the lines printed; a step keeps this (`Proper.step`), and so does a run
  (`Proper.steps`).
* `Grows s s'` — what has been added between two states of a run, and what has stayed.
* `invariants_of_steps` — all of it for the states of a run.
-/

set_option autoImplicit false
namespace Scriptlet

/-! ## Arrays that exist -/

namespace Heap

/-- The array that a value refers to exists, if the value refers to one. -/
def Holds (h : Heap) : Value → Prop
  | .array address => address < h.size
  | _ => True

theorem Holds.mono {h h' : Heap} {v : Value} (hv : h.Holds v) (hsize : h.size ≤ h'.size) :
    h'.Holds v := by
  cases v with
  | array address => exact Nat.lt_of_lt_of_le hv hsize
  | _ => trivial

theorem lt_size_of_lt_length {h : Heap} {a j : Nat} (hj : j < (h.elements a).length) :
    a < h.size := by
  by_contra ha
  rw [h.elements_of_size_le (Nat.le_of_not_lt ha)] at hj
  exact absurd hj (Nat.not_lt_zero j)

theorem mem_elements_alloc {h : Heap} {vs : List Value} {a : Nat} {v : Value}
    (hv : v ∈ (h.alloc vs).elements a) : v ∈ vs ∨ v ∈ h.elements a := by
  rcases Nat.lt_trichotomy a h.size with ha | rfl | ha
  · exact .inr (h.elements_alloc_of_lt vs ha ▸ hv)
  · exact .inl (h.elements_alloc_self vs ▸ hv)
  · rw [elements_of_size_le _ (by rw [size_alloc]; exact ha)] at hv
    exact absurd hv List.not_mem_nil

theorem mem_elements_write {h : Heap} {a b j : Nat} {v w : Value}
    (hw : w ∈ (h.write a j v).elements b) : w ∈ h.elements b ∨ w = v := by
  by_cases hb : b = a
  · subst hb
    rw [elements_write_self] at hw
    exact List.mem_or_eq_of_mem_set hw
  · exact .inl (h.elements_write_of_ne j v hb ▸ hw)

end Heap

namespace Machine

/-- Every array that the stack, a variable or an array refers to exists. -/
structure State.Closed (s : State) : Prop where
  stack : ∀ v ∈ s.stack, s.heap.Holds v
  store : ∀ p ∈ s.store, s.heap.Holds p.2
  elements : ∀ a, ∀ v ∈ s.heap.elements a, s.heap.Holds v

/-! ## Results that are no arrays -/

section Results

variable {h : Heap} {r : Value}

theorem holds_of_constant {i : Instruction} (hr : constant i = .ok r) : h.Holds r := by
  rw [constant.eq_def] at hr
  split at hr <;> (try split at hr) <;> cases hr <;> trivial

theorem holds_of_applyUnary {op : UnaryOp} {v : Value} (hr : applyUnary op v = .ok r) :
    h.Holds r := by
  rw [applyUnary.eq_def] at hr
  split at hr <;> cases hr <;> trivial

theorem holds_of_onNumbers {op : BinaryOp} {g : Float → Float → Except Fault Value} {a b : Value}
    (hg : ∀ x y v, g x y = .ok v → h.Holds v) (hr : onNumbers op g a b = .ok r) : h.Holds r := by
  rw [onNumbers.eq_def] at hr
  split at hr
  · exact hg _ _ _ hr
  · cases hr

theorem exists_of_bind_ok {α β : Type} {x : Except Fault α} {g : α → Except Fault β} {b : β}
    (hb : (x >>= g) = .ok b) : ∃ a, x = .ok a ∧ g a = .ok b := by
  cases x with
  | ok a => exact ⟨a, rfl, hb⟩
  | error f => cases hb

theorem holds_of_applyBinary [Limits] {h' : Heap} {op : BinaryOp} {a b : Value}
    (hr : applyBinary h' op a b = .ok r) : h.Holds r := by
  cases op with
  | add =>
    rw [applyBinary, add.eq_def] at hr
    split at hr
    · cases hr
      trivial
    · split at hr
      · obtain ⟨s, -, hr⟩ := exists_of_bind_ok hr
        obtain ⟨t, -, hr⟩ := exists_of_bind_ok hr
        cases hr
        trivial
      · cases hr
  | div =>
    refine holds_of_onNumbers (fun x y v hv => ?_) hr
    rw [divide] at hv
    split at hv <;> cases hv
    trivial
  | eq | ne =>
    obtain ⟨same, -, hr⟩ := exists_of_bind_ok hr
    cases hr
    trivial
  | and | or =>
    cases hr
    trivial
  | sub | mul | gt | ge | lt | le =>
    refine holds_of_onNumbers (fun x y v hv => ?_) hr
    cases hv
    trivial

theorem slot_lt {size j : Nat} {index : Value} (hj : slot size index = .ok j) : j < size := by
  obtain ⟨n, -, hn⟩ := exists_of_bind_ok hj
  split at hn
  · next hrange =>
    obtain rfl := Except.ok.inj hn
    simp only [Bool.and_eq_true, decide_eq_true_eq] at hrange
    omega
  · cases hn

/-- What is read from an array is one of its elements. -/
theorem holds_of_loadElement {array index : Value} (helements : ∀ a, ∀ v ∈ h.elements a, h.Holds v)
    (hr : loadElement h array index = .ok r) : h.Holds r := by
  rw [loadElement.eq_def] at hr
  split at hr
  · next address =>
    obtain ⟨j, hj, hr⟩ := exists_of_bind_ok hr
    obtain rfl := Except.ok.inj hr
    have hlt := slot_lt hj
    rw [List.getElem?_eq_getElem hlt]
    exact helements address _ (List.getElem_mem hlt)
  · cases hr

/-- What is written to is an array that exists, in a place that it has. -/
theorem lt_of_slotOf {name : Option String} {array : Option Value} {index : Value} {a j : Nat}
    (hplace : slotOf h name array index = .ok (a, j)) : j < (h.elements a).length := by
  rw [slotOf.eq_def] at hplace
  split at hplace
  · obtain ⟨j', hj', hplace⟩ := exists_of_bind_ok hplace
    obtain ⟨rfl, rfl⟩ := Prod.mk.inj (Except.ok.inj hplace)
    exact slot_lt hj'
  · cases hplace

theorem le_of_jumpTarget {size t : Nat} {i : Instruction} (ht : jumpTarget size i = .ok t) :
    t ≤ size := by
  obtain ⟨n, -, hn⟩ := exists_of_bind_ok ht
  split at hn
  · next hrange =>
    obtain rfl := Except.ok.inj hn
    simp only [Bool.and_eq_true, decide_eq_true_eq] at hrange
    omega
  · cases hn

end Results

/-! ## Variables -/

namespace Store

variable {s : Store} {name : Option String} {v : Value}

theorem mem_put {p : Option String × Value} (hp : p ∈ s.put name v) : p ∈ s ∨ p.2 = v := by
  induction s with
  | nil =>
    rw [List.mem_singleton.1 hp]
    exact .inr rfl
  | cons q rest ih =>
    rw [put] at hp
    split at hp
    · rcases List.mem_cons.1 hp with rfl | hp
      · exact .inr rfl
      · exact .inl (List.mem_cons_of_mem q hp)
    · rcases List.mem_cons.1 hp with rfl | hp
      · exact .inl List.mem_cons_self
      · exact (ih hp).imp_left (List.mem_cons_of_mem q)

/-- A variable that has a value keeps one. -/
theorem names_subset_put : s.map Prod.fst ⊆ (s.put name v).map Prod.fst := by
  induction s with
  | nil => exact List.nil_subset _
  | cons q rest ih =>
    rw [put]
    split
    · exact List.Subset.refl _
    · exact List.cons_subset_cons q.1 ih

end Store

/-! ## Output -/

/-- The lines printed, each with a line feed after it. -/
def State.lines (s : State) : String :=
  String.join (s.output.toList.map (· ++ "\n"))

theorem State.lines_push {s s' : State} {line : String} (h : s'.output = s.output.push line) :
    s'.lines = s.lines ++ line ++ "\n" := by
  simp [lines, h, String.append_assoc]

/-! ## One instruction -/

/-- What an instruction may do to the heap.  Only making an array adds one, at the next address;
only writing an element changes one, in one place. -/
def HeapChange (h h' : Heap) : Opcode → Prop
  | .makeArray => h'.size = h.size + 1 ∧ ∀ a < h.size, h'.elements a = h.elements a
  | .storeElement => h'.size = h.size ∧ ∃ a < h.size, ∃ j < (h.elements a).length,
      (∃ v, h'.elements a = (h.elements a).set j v) ∧ ∀ b ≠ a, h'.elements b = h.elements b
  | _ => h' = h

/-- What an instruction may do to the lines printed and to the text written.  Only printing adds to
them, one line. -/
def OutputChange (s s' : State) : Opcode → Prop
  | .print => ∃ line, s'.output = s.output.push line ∧ s'.written = s.written ++ line ++ "\n"
  | _ => s'.output = s.output ∧ s'.written = s.written

/-- What an instruction may do to a state, its counter and its stack aside. -/
structure Change (i : Instruction) (s s' : State) : Prop where
  names : s.store.map Prod.fst ⊆ s'.store.map Prod.fst
  output : OutputChange s s' i.opcode
  heap : HeapChange s.heap s'.heap i.opcode

section

variable {s s' : State} {i : Instruction}

theorem Change.of_same (hprint : i.opcode ≠ .print) (hmake : i.opcode ≠ .makeArray)
    (hstore : i.opcode ≠ .storeElement) (hnames : s.store.map Prod.fst ⊆ s'.store.map Prod.fst)
    (houtput : s'.output = s.output) (hwritten : s'.written = s.written)
    (hheap : s'.heap = s.heap) : Change i s s' where
  names := hnames
  output := by
    rw [OutputChange.eq_def]
    split
    · contradiction
    · exact ⟨houtput, hwritten⟩
  heap := by
    rw [HeapChange.eq_def]
    split
    · contradiction
    · contradiction
    · exact hheap

/-- If the stream holds the lines printed, it does so after an instruction. -/
theorem OutputChange.lines {op : Opcode} (h : OutputChange s s' op) (hs : s.written = s.lines) :
    s'.written = s'.lines := by
  rw [OutputChange.eq_def] at h
  split at h
  · obtain ⟨line, houtput, hwritten⟩ := h
    rw [hwritten, State.lines_push houtput, hs]
  · rw [h.2, hs, State.lines, State.lines, h.1]

variable [Limits] {size : Nat}

/-- **What one instruction may do.** -/
theorem Effect.change (h : Effect size s i s') : Change i s s' := by
  have same : s.store.map Prod.fst ⊆ s.store.map Prod.fst := List.Subset.refl _
  cases h with
  | constant hop =>
    have hne (op : Opcode) (hop' : op ∉ constantOpcodes) : i.opcode ≠ op := fun h => hop' (h ▸ hop)
    exact .of_same (hne _ (by decide)) (hne _ (by decide)) (hne _ (by decide)) same rfl rfl rfl
  | load | unary | binary | jump | jumpIfFalse | loadElement =>
    exact .of_same nofun nofun nofun same rfl rfl rfl
  | store => exact .of_same nofun nofun nofun Store.names_subset_put rfl rfl rfl
  | print => exact ⟨same, ⟨_, rfl, rfl⟩, rfl⟩
  | makeArray =>
    exact ⟨same, ⟨rfl, rfl⟩, Heap.size_alloc _ _, fun a ha => s.heap.elements_alloc_of_lt _ ha⟩
  | storeElement _ hplace =>
    have hlt := lt_of_slotOf hplace
    exact ⟨same, ⟨rfl, rfl⟩, Heap.size_write _ _ _ _, _, Heap.lt_size_of_lt_length hlt, _, hlt,
      ⟨_, s.heap.elements_write_self _ _ _⟩, fun b hb => s.heap.elements_write_of_ne _ _ hb⟩

/-- An instruction keeps a state closed. -/
theorem State.Closed.effect (hs : s.Closed) (h : Effect size s i s') : s'.Closed := by
  obtain ⟨hstack, hstore, helements⟩ := hs
  cases h with
  | constant _ hv =>
    exact ⟨List.forall_mem_cons.2 ⟨holds_of_constant hv, hstack⟩, hstore, helements⟩
  | load hv =>
    obtain ⟨before, after, hlookup, -⟩ := List.lookup_eq_some_iff.1 hv
    have hv := hstore _ (hlookup ▸ List.mem_append_right _ List.mem_cons_self)
    exact ⟨List.forall_mem_cons.2 ⟨hv, hstack⟩, hstore, helements⟩
  | store hs =>
    rw [hs, List.forall_mem_cons] at hstack
    refine ⟨hstack.2, fun p hp => ?_, helements⟩
    rcases Store.mem_put hp with hp | hp
    · exact hstore p hp
    · exact hp ▸ hstack.1
  | unary hs hr =>
    rw [hs, List.forall_mem_cons] at hstack
    exact ⟨List.forall_mem_cons.2 ⟨holds_of_applyUnary hr, hstack.2⟩, hstore, helements⟩
  | binary hs hr =>
    rw [hs, List.forall_mem_cons, List.forall_mem_cons] at hstack
    exact ⟨List.forall_mem_cons.2 ⟨holds_of_applyBinary hr, hstack.2.2⟩, hstore, helements⟩
  | jump => exact ⟨hstack, hstore, helements⟩
  | jumpIfFalse hs | print hs =>
    rw [hs, List.forall_mem_cons] at hstack
    exact ⟨hstack.2, hstore, helements⟩
  | @makeArray _ n =>
    have hsize : s.heap.size ≤ (s.heap.alloc (s.stack.take n).reverse).size := by simp
    refine ⟨List.forall_mem_cons.2 ⟨?_, fun v hv => ?_⟩, fun p hp => (hstore p hp).mono hsize,
      fun a v hv => ?_⟩
    · rw [Heap.Holds, Heap.size_alloc]
      exact Nat.lt_succ_self _
    · exact (hstack v (List.mem_of_mem_drop hv)).mono hsize
    · rcases Heap.mem_elements_alloc hv with hv | hv
      · exact (hstack v (List.mem_of_mem_take (List.mem_reverse.1 hv))).mono hsize
      · exact (helements a v hv).mono hsize
  | loadElement hs hr =>
    rw [hs, List.forall_mem_cons, List.forall_mem_cons] at hstack
    exact ⟨List.forall_mem_cons.2 ⟨holds_of_loadElement helements hr, hstack.2.2⟩, hstore,
      helements⟩
  | @storeElement _ _ v address place _ hs =>
    have hsize : s.heap.size ≤ (s.heap.write address place v).size := by simp
    rw [hs, List.forall_mem_cons, List.forall_mem_cons] at hstack
    refine ⟨fun w hw => (hstack.2.2 w hw).mono hsize, fun p hp => (hstore p hp).mono hsize,
      fun a w hw => ?_⟩
    rcases Heap.mem_elements_write hw with hw | rfl
    · exact (helements a w hw).mono hsize
    · exact hstack.2.1.mono hsize

/-- An instruction leads into the program or to the place behind it. -/
theorem Effect.counter_bounds (h : Effect size s i s') (h0 : 0 ≤ s.counter)
    (hlt : s.counter < size) : 0 ≤ s'.counter ∧ s'.counter ≤ size := by
  cases h with
  | jump ht =>
    have hle := le_of_jumpTarget ht
    dsimp only
    omega
  | jumpIfFalse _ ht =>
    have hle := le_of_jumpTarget ht
    dsimp only
    split <;> omega
  | _ =>
    dsimp only
    omega

end

/-! ## Runs -/

section

variable {program : Array Instruction} {s s' s'' : State} {n : Nat}

/-- The counter is in the program or just behind it, every array referred to exists, and the text
written is the lines printed. -/
structure Proper (program : Array Instruction) (s : State) : Prop where
  counter_nonneg : 0 ≤ s.counter
  counter_le : s.counter ≤ program.size
  closed : s.Closed
  written : s.written = s.lines

theorem Proper.start (program : Array Instruction) : Proper program {} where
  counter_nonneg := le_rfl
  counter_le := Int.natCast_nonneg _
  closed := ⟨nofun, nofun, fun a v hv => absurd hv (by simp [Heap.elements])⟩
  written := rfl

theorem lt_of_fetch {c : Int} {i : Instruction} (h0 : 0 ≤ c)
    (h : fetch program c = .instruction i) : c < program.size := by
  obtain ⟨k, rfl⟩ := Int.eq_ofNat_of_zero_le h0
  obtain ⟨hk, -⟩ := Array.getElem?_eq_some_iff.1 (getElem?_of_fetch h)
  exact Int.ofNat_lt.2 hk

/-- What a run has added between two states, and what it has kept: variables keep having values,
lines stay printed, and arrays stay with the lengths they have. -/
structure Grows (s s' : State) : Prop where
  names : s.store.map Prod.fst ⊆ s'.store.map Prod.fst
  output : s.output.toList <+: s'.output.toList
  size : s.heap.size ≤ s'.heap.size
  lengths : ∀ a < s.heap.size, (s'.heap.elements a).length = (s.heap.elements a).length

theorem Grows.refl (s : State) : Grows s s :=
  ⟨List.Subset.refl _, List.prefix_rfl, le_rfl, fun _ _ => rfl⟩

theorem Grows.trans (h : Grows s s') (h' : Grows s' s'') : Grows s s'' where
  names := List.Subset.trans h.names h'.names
  output := h.output.trans h'.output
  size := h.size.trans h'.size
  lengths a ha := (h'.lengths a (Nat.lt_of_lt_of_le ha h.size)).trans (h.lengths a ha)

theorem HeapChange.grows {h h' : Heap} {op : Opcode} (hchange : HeapChange h h' op) :
    h.size ≤ h'.size ∧ ∀ a < h.size, (h'.elements a).length = (h.elements a).length := by
  rw [HeapChange.eq_def] at hchange
  split at hchange
  · obtain ⟨hsize, hold⟩ := hchange
    exact ⟨by omega, fun a ha => by rw [hold a ha]⟩
  · obtain ⟨hsize, a, -, j, -, ⟨v, hset⟩, hother⟩ := hchange
    refine ⟨hsize.ge, fun b _ => ?_⟩
    by_cases hb : b = a
    · rw [hb, hset, List.length_set]
    · rw [hother b hb]
  · rw [hchange]
    exact ⟨le_rfl, fun _ _ => rfl⟩

theorem OutputChange.grows {op : Opcode} (hchange : OutputChange s s' op) :
    s.output.toList <+: s'.output.toList := by
  rw [OutputChange.eq_def] at hchange
  split at hchange
  · obtain ⟨line, houtput, -⟩ := hchange
    rw [houtput, Array.toList_push]
    exact List.prefix_append _ _
  · rw [hchange.1]

theorem Change.grows {i : Instruction} (h : Change i s s') : Grows s s' :=
  ⟨h.names, h.output.grows, h.heap.grows.1, h.heap.grows.2⟩

theorem Proper.fetch (h : Proper program s) :
    s.counter = program.size ∨ ∃ i, fetch program s.counter = .instruction i := by
  obtain ⟨k, hk⟩ := Int.eq_ofNat_of_zero_le h.counter_nonneg
  have hle := h.counter_le
  rcases Nat.lt_or_ge k program.size with hlt | hge
  · exact .inr ⟨_, hk ▸ fetch_of_lt hlt⟩
  · exact .inl (by omega)

variable [Limits]

theorem Proper.step (h : Proper program s) (hstep : Step program s s') : Proper program s' := by
  obtain ⟨i, hfetch, -, hrun⟩ := hstep
  have heffect := effect_of_run hrun
  obtain ⟨h0, hle⟩ := heffect.counter_bounds h.counter_nonneg (lt_of_fetch h.counter_nonneg hfetch)
  exact ⟨h0, hle, h.closed.effect heffect, heffect.change.output.lines h.written⟩

theorem Proper.steps (h : Proper program s) (hsteps : Steps program n s s') :
    Proper program s' := by
  induction hsteps with
  | refl => exact h
  | head first _ ih => exact ih (h.step first)

theorem Steps.grows (h : Steps program n s s') : Grows s s' := by
  induction h with
  | refl s => exact .refl s
  | head first _ ih =>
    obtain ⟨i, -, -, hrun⟩ := first
    exact (effect_of_run hrun).change.grows.trans ih

/-- A run that ends without an error has come to the place behind the program, or to a halt. -/
theorem Proper.rests (h : Proper program s) {e : Ending} (hrun : run program n s = (e, s'))
    (herror : e.error? = none) (hsteps : e ≠ .outOfSteps) :
    s'.counter = program.size ∨
      ∃ i, Machine.fetch program s'.counter = .instruction i ∧ i.opcode = .halt := by
  obtain ⟨m, t, htrace, hend | ⟨f, t', -, hend⟩⟩ := exists_steps_of_run program n s
  · rw [hrun] at hend
    rcases (h.steps htrace).fetch with hcounter | ⟨i, hfetch⟩
    · have hafter : Machine.fetch program t.counter = .after := hcounter ▸ fetch_of_le le_rfl
      simp only [run, hafter] at hend
      obtain ⟨-, rfl⟩ := Prod.mk.inj hend
      exact .inl hcounter
    · by_cases hop : i.opcode = .halt
      · rw [run_of_halt hfetch hop] at hend
        obtain ⟨-, rfl⟩ := Prod.mk.inj hend
        exact .inr ⟨i, hfetch, hop⟩
      · simp only [run, hfetch, if_neg hop] at hend
        exact absurd (Prod.mk.inj hend).1 hsteps
  · rw [hrun] at hend
    obtain ⟨rfl, -⟩ := Prod.mk.inj hend
    cases herror

/-- An instruction that stops prints and writes nothing. -/
theorem Fails.output {f : Fault} (h : Fails program s f s') :
    s'.output = s.output ∧ s'.written = s.written := by
  obtain ⟨i, -, -, hrun⟩ := h
  cases refusal_of_run hrun <;> exact ⟨rfl, rfl⟩

/-- However a run ends, the text written is the lines printed. -/
theorem Proper.written_run (h : Proper program s) (n : Nat) :
    (run program n s).2.written = (run program n s).2.lines := by
  obtain ⟨m, t, htrace, hend | ⟨f, t', hfails, hend⟩⟩ := exists_steps_of_run program n s
  · rw [hend, run_zero_snd]
    exact (h.steps htrace).written
  · obtain ⟨houtput, hwritten⟩ := hfails.output
    rw [hend, State.lines, hwritten, houtput]
    exact (h.steps htrace).written

end

open CommandLine

/-- **Invariants of a run.**  In every state that a program reaches, whatever its instructions, the
counter is in the program or just behind it, and every array that the stack, a variable or an array
refers to exists.  The text written is the lines printed, each with a line feed; so it is when the
run ends, with an error or without, and this text is what the command line prints.  The next
instruction removes no variable, prints one line if it prints and none otherwise, makes one array if
it makes arrays and none otherwise, and changes one element of one array if it writes elements and
none otherwise.  So later on no variable, line or array is gone and no array has another length.
And if the run ends without an error, its counter is just behind the program or rests on a halt. -/
theorem invariants_of_steps [Limits] {program : Array Instruction} {n : Nat} {s : State}
    (h : Steps program n {} s) :
    (0 ≤ s.counter ∧ s.counter ≤ program.size) ∧ s.Closed ∧
    (s.written = s.lines ∧
      (∀ m, (run program m s).2.written = (run program m s).2.lines) ∧
      ∀ stretches (t : Session), ((runAloud Session.host program stretches {}).run t).2 =
        { t with printed := t.printed ++ (run program (stretches * stretch) {}).2.lines }) ∧
    (∀ i s', fetch program s.counter = .instruction i → Step program s s' → Change i s s') ∧
    (∀ m s', Steps program m s s' → Grows s s') ∧
    ∀ m e t, run program m s = (e, t) → e.error? = none → e ≠ .outOfSteps →
      t.counter = program.size ∨
        ∃ i, fetch program t.counter = .instruction i ∧ i.opcode = .halt := by
  have hstart := Proper.start program
  have hproper := hstart.steps h
  refine ⟨⟨hproper.counter_nonneg, hproper.counter_le⟩, hproper.closed,
    ⟨hproper.written, hproper.written_run, fun stretches t => ?_⟩, ?_,
    fun _ _ hsteps => hsteps.grows, fun _ _ _ hrun => hproper.rests hrun⟩
  · rw [printed_runAloud program stretches rfl t, hstart.written_run]
  · rintro i s' hfetch ⟨j, hfetch', -, hrun⟩
    obtain rfl : i = j := by simpa [hfetch] using hfetch'
    exact (effect_of_run hrun).change

/-- An array that is made, kept in a variable, and printed. -/
theorem invariants_of_steps_array :
    let _ : Limits := ⟨20, 20⟩
    let program : Array Instruction := #[⟨.constString, some "a"⟩, ⟨.makeArray, some "1"⟩,
      ⟨.store, some "x"⟩, ⟨.load, some "x"⟩, ⟨.print, none⟩]
    ∃ s, Steps program 5 {} s ∧ s.store = [(some "x", .array 0)] ∧ s.output = #["[a]"] ∧
      s.written = "[a]\n" ∧ s.counter = 5 ∧ s.Closed ∧ s.written = s.lines := by
  intro limits program
  let s : State :=
    ⟨5, [], [(some "x", .array 0)], Heap.alloc {} [.string "a"], #["[a]"], "[a]\n"⟩
  have hsteps : Steps program 5 {} s :=
    .head ⟨_, rfl, nofun, rfl⟩ (.head ⟨_, rfl, nofun, rfl⟩ (.head ⟨_, rfl, nofun, rfl⟩
      (.head ⟨_, rfl, nofun, rfl⟩ (.head ⟨_, rfl, nofun, rfl⟩ (.refl _)))))
  obtain ⟨-, hclosed, hwritten, -⟩ := invariants_of_steps hsteps
  exact ⟨s, hsteps, rfl, rfl, rfl, rfl, hclosed, hwritten.1⟩

end Machine
end Scriptlet
