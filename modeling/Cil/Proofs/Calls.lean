import Cil.Proofs.Growth

/-
  WHAT A CALL SHOWS.

  The operand of a call is to be the method without its return type, behind the declaring type
  (`MethodHeader.calledText`).  It is not put together so.  The whole text of the method is written, and
  what follows the first space of it is kept.

  The first space is the one behind the return type exactly if the return type has none of its own.  If
  it has one, what follows there is kept too, and stands in front of the name
  (`Listed.methodText_of_spaced`).  So the two texts are the same for the return types without a space,
  and for no others (`Listed.call_shows_exact_iff`).
-/

namespace Cil

/-- What stands behind the first `a`. -/
theorem drop_dropWhile_ne {α : Type} [DecidableEq α] {a : α} {xs : List α} (h : a ∉ xs) (ys : List α) :
    ((xs ++ a :: ys).dropWhile (· ≠ a)).drop 1 = ys := by
  have hfront : ∀ x ∈ xs, decide (x ≠ a) = true := by
    intro x hx
    rw [decide_eq_true_iff]
    rintro rfl
    exact h hx
  rw [List.dropWhile_append_of_pos hfront, List.dropWhile_cons_of_neg (by simp)]
  rfl

/-- A text with a space can be parted at the first one. -/
theorem exists_first_space {s : String} (h : ' ' ∈ s.toList) :
    ∃ first rest : String, s = first ++ " " ++ rest ∧ ' ' ∉ first.toList := by
  obtain ⟨xs, ys, hchars, hxs⟩ := List.eq_append_cons_of_mem h
  refine ⟨String.ofList xs, String.ofList ys, ?_, by rwa [String.toList_ofList]⟩
  apply String.toList_inj.mp
  rw [hchars]
  simp

namespace MethodHeader

/-- The method without its return type, behind its declaring type. -/
def calledText (m : MethodHeader) : String :=
  m.declaring.getD "" ++ "::" ++ m.name ++ "(" ++ ", ".intercalate m.parameters ++ ")"

theorem calledText_eq (m : MethodHeader) : m.calledText = m.declaring.getD "" ++ "::" ++ m.signatureText := by
  simp only [calledText, signatureText, String.append_assoc]

theorem toList_text (m : MethodHeader) :
    m.text.toList = m.returns.toList ++ ' ' :: m.signatureText.toList := by
  rw [text, String.toList_append, String.toList_append, List.append_assoc]
  rfl

end MethodHeader

namespace Listed

variable {σ : Type}

/-- A return type without a space is dropped, and nothing else is. -/
theorem methodText_of_unspaced {m : MethodHeader} (h : ' ' ∉ m.returns.toList) :
    methodText m = m.calledText := by
  rw [methodText, m.toList_text, drop_dropWhile_ne h, String.ofList_toList, m.calledText_eq]

/-- Of a return type with a space, what follows the first one is kept. -/
theorem methodText_of_spaced {m : MethodHeader} {first rest : String}
    (hreturns : m.returns = first ++ " " ++ rest) (hfirst : ' ' ∉ first.toList) :
    methodText m = m.declaring.getD "" ++ "::" ++ rest ++ " " ++ m.signatureText := by
  have hchars : m.text.toList = first.toList ++ ' ' :: (rest ++ " " ++ m.signatureText).toList := by
    rw [m.toList_text, hreturns]
    simp
  rw [methodText, hchars, drop_dropWhile_ne hfirst, String.ofList_toList]
  simp only [String.append_assoc]

theorem methodText_eq_calledText_iff (m : MethodHeader) :
    methodText m = m.calledText ↔ ' ' ∉ m.returns.toList := by
  refine ⟨?_, methodText_of_unspaced⟩
  intro heq hspace
  -- what is left of the return type makes the text longer
  obtain ⟨first, rest, hreturns, hfirst⟩ := exists_first_space hspace
  rw [methodText_of_spaced hreturns hfirst, m.calledText_eq] at heq
  have hlength := congrArg String.length heq
  simp only [String.length_append] at hlength
  have hblank : " ".length = 1 := rfl
  omega

theorem result_operandText_of_method {l : Listed} {t : Token}
    (ho : l.instruction.operand = .token (.entity .method) t) {r : Resolver σ} {w : World σ}
    {m : MethodHeader} (hm : r.answer w.host .method t = .ok m) :
    (l.operandText r).result w = .ok (.ok (methodText m), l) := by
  rw [operandText, ho]
  show Except.ok ((r.answer w.host .method t).map methodText, l) = _
  rw [hm]
  rfl

/-- **What is left of the return type.**  A call whose token is answered with a method shows a text, in
    every style.  It is the method without its return type exactly if there is no space in the return
    type.  Otherwise what follows the first space of the return type is left, in front of the name. -/
theorem call_shows_exact_iff {l : Listed} {t : Token}
    (ho : l.instruction.operand = .token (.entity .method) t) {r : Resolver σ} {w : World σ}
    {m : MethodHeader} (hm : r.answer w.host .method t = .ok m) :
    ∃ text, (l.operandText r).result w = .ok (.ok text, l) ∧
      (text = m.calledText ↔ ' ' ∉ m.returns.toList) ∧
      ∀ first rest, m.returns = first ++ " " ++ rest → ' ' ∉ first.toList →
        text = m.declaring.getD "" ++ "::" ++ rest ++ " " ++ m.signatureText :=
  ⟨methodText m, result_operandText_of_method ho hm, methodText_eq_calledText_iff m,
    fun _ _ hreturns hfirst => methodText_of_spaced hreturns hfirst⟩

/-- Two methods of one scope, whose return types have no space and two. -/
theorem call_shows_exact_iff_spaces :
    let write : MethodHeader := ⟨"Write", "Void", ["Int32", "String"], none⟩
    let load : MethodHeader := ⟨"Load", "Map[Int32, List of String]", [], some "Demo"⟩
    let call (t : Token) : Listed :=
      { instruction := ⟨0, ⟨0x28, "call", .token (.entity .method)⟩, .token (.entity .method) t⟩
        style := .standard }
    let w : World Scope := ⟨⟨#[.method write, .varArgMethod load []]⟩, #[]⟩
    (∃ text, ((call ⟨0x06000001⟩).operandText Scope.resolver).result w
        = .ok (.ok text, call ⟨0x06000001⟩) ∧
      text = "::Write(Int32, String)") ∧
    ∃ text, ((call ⟨0x0A000002⟩).operandText Scope.resolver).result w
        = .ok (.ok text, call ⟨0x0A000002⟩) ∧
      text = "Demo::List of String] Load()" := by
  intro write load call w
  obtain ⟨text, hshown, hexact, -⟩ := call_shows_exact_iff (l := call ⟨0x06000001⟩) rfl
    (r := Scope.resolver) (w := w) (m := write) rfl
  obtain ⟨text', hshown', -, hleft⟩ := call_shows_exact_iff (l := call ⟨0x0A000002⟩) rfl
    (r := Scope.resolver) (w := w) (m := load) rfl
  exact ⟨⟨text, hshown, hexact.mpr (by decide)⟩, text', hshown',
    hleft "Map[Int32," "List of String]" rfl (by decide)⟩

/-- A part of the return type is shown in front of the name. -/
theorem call_shows_return_type :
    let load : MethodHeader := ⟨"Load", "Map[Int32, String]", ["System.String"], some "Demo"⟩
    let call : Listed :=
      { instruction := ⟨0, ⟨0x28, "call", .token (.entity .method)⟩,
          .token (.entity .method) ⟨0x06000001⟩⟩
        style := .standard }
    (call.operandText Scope.resolver).result ⟨⟨#[.method load]⟩, #[]⟩
      = .ok (.ok "Demo::String] Load(System.String)", call) ∧
    load.calledText = "Demo::Load(System.String)" := by
  intro load call
  have htext : methodText load = "Demo::String] Load(System.String)" :=
    methodText_of_spaced (show load.returns = "Map[Int32," ++ " " ++ "String]" from rfl) (by decide)
  refine ⟨?_, rfl⟩
  rw [← htext]
  exact result_operandText_of_method rfl rfl

end Listed

end Cil
