import RemoteCall.Pdu.Body

/-! What the readers of a body take from the bytes in front of them. `Reads` is about a reader that
stops on its own and so ignores what follows; `Exhausts` is about one that may go on to the end of
the body. Each reader of a single field has one lemma, and sequences are put together with
`Reads.bind` and `Reads.exhausts_bind`. -/

namespace RemoteCall.Body

/-- In byte order `o` and at position `n`, the reader takes the bytes `bs` and gives `a`, whatever
follows them. -/
def Reads {α : Type} (p : Parse α) (o : ByteOrder) (n : Nat) (bs : List UInt8) (a : α) : Prop :=
  ∀ rest, p ⟨o, n, bs ++ rest⟩ = .ok (a, ⟨o, n + bs.length, rest⟩)

/-- The reader takes a body that holds `bs` and nothing else to its end. -/
def Exhausts {α : Type} (p : Parse α) (o : ByteOrder) (n : Nat) (bs : List UInt8) (a : α) : Prop :=
  p ⟨o, n, bs⟩ = .ok (a, ⟨o, n + bs.length, []⟩)

section Sequences

variable {α β : Type} {o : ByteOrder} {n : Nat}

theorem bind_ok {p : Parse α} {f : α → Parse β} {c c' : Cursor} {a : α} (h : p c = .ok (a, c')) :
    (p >>= f) c = f a c' := by
  change (p c >>= fun x => f x.1 x.2) = f a c'
  rw [h]
  rfl

theorem reads_pure (a : α) : Reads (pure a : Parse α) o n [] a := by
  intro rest
  rfl

theorem Reads.bind {p : Parse α} {f : α → Parse β} {bs cs : List UInt8} {a : α} {b : β}
    (hp : Reads p o n bs a) (hf : Reads (f a) o (n + bs.length) cs b) :
    Reads (p >>= f) o n (bs ++ cs) b := by
  intro rest
  rw [List.append_assoc, bind_ok (hp (cs ++ rest)), hf rest, List.length_append, Nat.add_assoc]

/-- A reader whose last step only shapes the result. -/
theorem Reads.bind_pure {p : Parse α} {f : α → β} {bs : List UInt8} {a : α}
    (hp : Reads p o n bs a) : Reads (p >>= fun x => pure (f x)) o n bs (f a) := by
  have h := hp.bind (f := fun x => pure (f x)) (reads_pure (f a))
  rwa [List.append_nil] at h

theorem Reads.exhausts {p : Parse α} {bs : List UInt8} {a : α} (hp : Reads p o n bs a) :
    Exhausts p o n bs a := by
  simpa [Exhausts] using hp []

theorem Reads.exhausts_bind {p : Parse α} {f : α → Parse β} {bs cs : List UInt8} {a : α} {b : β}
    (hp : Reads p o n bs a) (hf : Exhausts (f a) o (n + bs.length) cs b) :
    Exhausts (p >>= f) o n (bs ++ cs) b := by
  unfold Exhausts at hf ⊢
  rw [bind_ok (hp cs), hf, List.length_append, Nat.add_assoc]

theorem Exhausts.bind_pure {p : Parse α} {f : α → β} {bs : List UInt8} {a : α}
    (hp : Exhausts p o n bs a) : Exhausts (p >>= fun x => pure (f x)) o n bs (f a) := by
  unfold Exhausts at hp ⊢
  rw [bind_ok hp]
  rfl

/-- Readers that only look at where they are leave the bytes alone. -/
theorem Reads.peek_bind {p : Parse α} {f : α → Parse β} {cs : List UInt8} {a : α} {b : β}
    (hp : ∀ rest, p ⟨o, n, rest⟩ = .ok (a, ⟨o, n, rest⟩)) (hf : Reads (f a) o n cs b) :
    Reads (p >>= f) o n cs b := by
  intro rest
  rw [bind_ok (hp (cs ++ rest)), hf rest]

theorem Exhausts.peek_bind {p : Parse α} {f : α → Parse β} {cs : List UInt8} {a : α} {b : β}
    (hp : p ⟨o, n, cs⟩ = .ok (a, ⟨o, n, cs⟩)) (hf : Exhausts (f a) o n cs b) :
    Exhausts (p >>= f) o n cs b := by
  unfold Exhausts at hf ⊢
  rw [bind_ok hp, hf]

theorem Reads.map {p : Parse α} {f : α → β} {bs : List UInt8} {a : α} (hp : Reads p o n bs a) :
    Reads (f <$> p) o n bs (f a) := by
  rw [map_eq_pure_bind]
  exact hp.bind_pure

end Sequences

/-! ## Single fields -/

section Fields

variable {o : ByteOrder} {n : Nat}

theorem reads_take {bs : List UInt8} {k : Nat} (h : bs.length = k) : Reads (take k) o n bs bs := by
  intro rest
  rw [take, splitExact?_append h, h]

theorem reads_skip (k : Nat) {bs : List UInt8} (h : bs.length = k) : Reads (skip k) o n bs () :=
  (reads_take h).bind_pure

theorem reads_u8 (b : UInt8) : Reads u8 o n [b] b := by
  have hb : UInt8.ofNat (ByteOrder.little.decode [b]) = b := by
    simp [ByteOrder.decode, ByteOrder.arrange, ofDigits]
  have htake : Reads (take 1) o n [b] [b] := reads_take rfl
  have h := htake.bind_pure (f := fun bs => UInt8.ofNat (ByteOrder.little.decode bs))
  rwa [hb] at h

/-- A field of fixed width, decoded in the byte order of the unit. -/
theorem reads_ordered {α : Type} {bs : List UInt8} {k : Nat} (decode : ByteOrder → List UInt8 → α)
    (h : bs.length = k) :
    Reads (do return decode (← order) (← take k)) o n bs (decode o bs) :=
  Reads.peek_bind (a := o) (fun _ => rfl) (reads_take h).bind_pure

theorem reads_u16 (w : UInt16) : Reads u16 o n (o.word16 w) w := by
  have h := reads_ordered (o := o) (n := n) ByteOrder.read16 (ByteOrder.length_word16 o w)
  rwa [ByteOrder.read16_word16] at h

theorem reads_u32 (w : UInt32) : Reads u32 o n (o.word32 w) w := by
  have h := reads_ordered (o := o) (n := n) ByteOrder.read32 (ByteOrder.length_word32 o w)
  rwa [ByteOrder.read32_word32] at h

theorem reads_uuid (u : Uuid) : Reads uuid o n (u.encode o) u := by
  have h := reads_ordered (o := o) (n := n) Uuid.decode (Uuid.length_encode o u)
  rwa [Uuid.decode_encode] at h

theorem reads_syntaxId (s : SyntaxId) : Reads syntaxId o n (s.encode o) s :=
  (reads_uuid s.uuid).bind (reads_u32 s.version).bind_pure

/-- The bytes up to the next multiple of the alignment. -/
theorem reads_align {bs : List UInt8} {alignment : Nat}
    (h : bs.length = (alignment - n % alignment) % alignment) :
    Reads (align alignment) o n bs () :=
  Reads.peek_bind (a := n) (fun _ => rfl) (reads_skip _ h)

theorem exhausts_remainder (bs : List UInt8) : Exhausts remainder o n bs bs := rfl

/-- A counted list, when each item is read from its own bytes wherever it stands. -/
theorem reads_times {α : Type} {p : Parse α} {write : α → List UInt8} {items : List α}
    (h : ∀ a ∈ items, ∀ n, Reads p o n (write a) a) :
    Reads (times p items.length) o n (items.flatMap write) items := by
  induction items generalizing n with
  | nil => exact reads_pure []
  | cons a as ih =>
    have ha := h a (List.mem_cons_self ..) n
    have has := ih (n := n + (write a).length) fun b hb => h b (List.mem_cons_of_mem _ hb)
    exact ha.bind has.bind_pure

end Fields

/-! ## Results of any successful read -/

/-- Whatever the reader gives satisfies `Q`. -/
def Ensures {α : Type} (p : Parse α) (Q : α → Prop) : Prop :=
  ∀ c a c', p c = .ok (a, c') → Q a

theorem ensures_pure {α : Type} {Q : α → Prop} {a : α} (h : Q a) :
    Ensures (pure a : Parse α) Q := by
  intro c b c' hb
  cases hb
  exact h

theorem Ensures.bind_of {α β : Type} {p : Parse α} {f : α → Parse β} {P : α → Prop}
    {Q : β → Prop} (hp : Ensures p P) (hf : ∀ a, P a → Ensures (f a) Q) : Ensures (p >>= f) Q := by
  intro c b c' hb
  change (p c >>= fun x => f x.1 x.2) = _ at hb
  cases hstep : p c with
  | error e =>
    rw [hstep] at hb
    cases hb
  | ok x =>
    rw [hstep] at hb
    exact hf x.1 (hp c x.1 x.2 hstep) x.2 b c' hb

theorem Ensures.bind {α β : Type} {p : Parse α} {f : α → Parse β} {Q : β → Prop}
    (h : ∀ a, Ensures (f a) Q) : Ensures (p >>= f) Q :=
  Ensures.bind_of (P := fun _ => True) (fun _ _ _ _ => trivial) fun a _ => h a

theorem ensures_times {α : Type} (p : Parse α) (n : Nat) :
    Ensures (times p n) fun as => as.length = n := by
  induction n with
  | zero => exact ensures_pure rfl
  | succ n ih =>
    refine Ensures.bind fun a => ih.bind_of fun as has => ensures_pure ?_
    rw [List.length_cons, has]

theorem Ensures.run {α : Type} {p : Parse α} {Q : α → Prop} (hp : Ensures p Q) {h : Header}
    {data : List UInt8} {a : α} (hrun : run p h data = .ok a) : Q a := by
  change (p (start h data) >>= fun x => pure x.1) = _ at hrun
  cases hstart : p (start h data) with
  | error e =>
    rw [hstart] at hrun
    cases hrun
  | ok x =>
    rw [hstart] at hrun
    cases hrun
    exact hp _ _ _ hstart

end RemoteCall.Body
