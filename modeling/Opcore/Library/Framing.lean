/-
  Opcore.Library.Framing

  Codes that say themselves where they end.  Such codes can stand one after another with
  nothing between them: the text tells the values apart.
-/
import Opcore.Library.Text

namespace Text

variable {α β : Type*} {f : α → Str} {g : β → Str} {P P' : α → Prop} {Q : β → Prop}

/-- Whatever follows, two codes are equal only if the values and what follows are. -/
def SelfDelimiting (encode : α → Str) (admissible : α → Prop) : Prop :=
  ∀ a b, admissible a → admissible b →
    ∀ s t, encode a ++ s = encode b ++ t → a = b ∧ s = t

theorem SelfDelimiting.mono (h : SelfDelimiting f P) (hP : ∀ a, P' a → P a) :
    SelfDelimiting f P' := fun a b ha hb => h a b (hP a ha) (hP b hb)

theorem SelfDelimiting.injective (h : SelfDelimiting f P) {a b : α} (ha : P a) (hb : P b)
    (heq : f a = f b) : a = b :=
  (h a b ha hb [] [] (congrArg (· ++ []) heq)).1

/-- A value that another determines is told apart with it. -/
theorem SelfDelimiting.comap (h : SelfDelimiting f P) (value : β → α)
    (hvalue : ∀ a b, Q a → Q b → value a = value b → a = b) (hP : ∀ b, Q b → P (value b)) :
    SelfDelimiting (fun b => f (value b)) Q := by
  intro a b ha hb s t heq
  obtain ⟨hsame, hrest⟩ := h (value a) (value b) (hP a ha) (hP b hb) s t heq
  exact ⟨hvalue a b ha hb hsame, hrest⟩

/-- A pair is told apart by the codes of its parts. -/
theorem SelfDelimiting.pair (hf : SelfDelimiting f P) (hg : SelfDelimiting g Q) :
    SelfDelimiting (fun e : α × β => f e.1 ++ g e.2) fun e => P e.1 ∧ Q e.2 := by
  rintro ⟨a, c⟩ ⟨b, d⟩ ⟨ha, hc⟩ ⟨hb, hd⟩ s t heq
  rw [List.append_assoc, List.append_assoc] at heq
  obtain ⟨hfirst, hrest⟩ := hf a b ha hb _ _ heq
  obtain ⟨hsecond, hrest⟩ := hg c d hc hd _ _ hrest
  exact ⟨Prod.ext hfirst hsecond, hrest⟩

/-- Texts of one length say where they end. -/
theorem selfDelimiting_of_length (n : Nat) : SelfDelimiting id fun s : Str => s.length = n :=
  fun _ _ ha hb _ _ heq => List.append_inj heq (ha.trans hb.symm)

/-- A text behind its length says where it ends. -/
theorem selfDelimiting_framed :
    SelfDelimiting (fun s : Str => be64 s.length ++ s) fun s => s.length < 2 ^ 64 := by
  intro a b ha hb s t heq
  rw [List.append_assoc, List.append_assoc] at heq
  obtain ⟨hlength, heq⟩ := List.append_inj heq rfl
  apply List.append_inj heq
  rw [← fromBe64_be64 ha, hlength, fromBe64_be64 hb]

/-- A sequence is told apart by the codes of its elements, none of which is empty. -/
theorem SelfDelimiting.flatMap_injective (h : SelfDelimiting f P) (hne : ∀ a, f a ≠ [])
    {l l' : List α} (hl : ∀ a ∈ l, P a) (hl' : ∀ a ∈ l', P a)
    (heq : l.flatMap f = l'.flatMap f) : l = l' := by
  induction l generalizing l' with
  | nil =>
    cases l' with
    | nil => rfl
    | cons b l' =>
      rw [List.flatMap_nil, List.flatMap_cons] at heq
      exact absurd (List.append_eq_nil_iff.mp heq.symm).1 (hne b)
  | cons a l ih =>
    cases l' with
    | nil =>
      rw [List.flatMap_nil, List.flatMap_cons] at heq
      exact absurd (List.append_eq_nil_iff.mp heq).1 (hne a)
    | cons b l' =>
      obtain ⟨ha, hl⟩ := List.forall_mem_cons.mp hl
      obtain ⟨hb, hl'⟩ := List.forall_mem_cons.mp hl'
      rw [List.flatMap_cons, List.flatMap_cons] at heq
      obtain ⟨hsame, hrest⟩ := h a b ha hb _ _ heq
      rw [hsame, ih hl hl' hrest]

/-! ## Hexadecimal text -/

theorem hexDigit_injective {m n : Nat} (hm : m < 16) (hn : n < 16) (h : hexDigit m = hexDigit n) :
    m = n := by
  have hall : ∀ m < 16, ∀ n < 16, hexDigit m = hexDigit n → m = n := by decide
  exact hall m hm n hn h

theorem hexEncode_injective : Function.Injective hexEncode := by
  intro s s' h
  induction s generalizing s' with
  | nil =>
    cases s' with
    | nil => rfl
    | cons b' s' => simp [hexEncode] at h
  | cons b s ih =>
    cases s' with
    | nil => simp [hexEncode] at h
    | cons b' s' =>
      simp only [hexEncode, List.flatMap_cons, List.cons_append, List.nil_append,
        List.cons.injEq] at h
      obtain ⟨hhigh, hlow, hrest⟩ := h
      have hb := b.toNat_lt
      have hb' := b'.toNat_lt
      have hhigh := hexDigit_injective (by omega) (by omega) hhigh
      have hlow := hexDigit_injective (by omega) (by omega) hlow
      have hbyte : b.toNat = b'.toNat := by omega
      rw [UInt8.toNat_inj.mp hbyte, ih hrest]

end Text
