import ObjectLisp.LambdaList
import ObjectLisp.Proofs.Symbols.Keywords

/-!
# Parameter lists item by item

A parameter list is parsed from left to right.  An item is the marker of a later
section, or it is entered as a parameter of the current one; a parse that succeeds
has done one of the two with every item.  Whether it succeeds or not, all that it
does to the symbols is to intern keywords, one for each keyword parameter.
-/

namespace ObjectLisp.LambdaList

variable {markers : Markers} {symbols : SymbolStore} {kind : ParamKind}
  {taken params : List (Param Value)} {item : Value} {items : List Value}

/-! ## One item -/

/-- The marker of a later section starts this section. -/
theorem parseItems_marker {symbol : SymbolId} {later : ParamKind}
    (starts : marker? markers item = some (symbol, later)) (order : kind.rank < later.rank) :
    parseItems markers symbols kind taken (item :: items) =
      parseItems markers symbols later taken items := by
  rw [parseItems, starts]
  exact if_neg (Nat.not_le.mpr order)

/-- Any other item is entered as a parameter of the section. -/
theorem parseItems_entry {name : SymbolId} {init : Option Value}
    (unmarked : marker? markers item = none) (found : entry kind item = .ok (name, init))
    (named : isName symbols name = true)
    (single : kind = .rest → ∀ param ∈ taken, param.kind ≠ .rest) :
    parseItems markers symbols kind taken (item :: items) =
      parseItems markers (announce symbols kind name).2 kind
        ({ name, kind, init, keyword := (announce symbols kind name).1 } :: taken) items := by
  have first : ¬ (kind = .rest && taken.any (·.kind = .rest)) = true := by
    simpa using single
  rw [parseItems, unmarked]
  dsimp only
  rw [found]
  simp only [named, Bool.not_true, Bool.false_eq_true, if_false, if_neg first]

/-- A parse that succeeds takes every item as the marker of a later section or as a parameter. -/
theorem parseItems_cons_ok
    (parsed : (parseItems markers symbols kind taken (item :: items)).1 = .ok params) :
    (∃ symbol later, marker? markers item = some (symbol, later) ∧ kind.rank < later.rank ∧
      (parseItems markers symbols later taken items).1 = .ok params) ∨
    ∃ name init, marker? markers item = none ∧ entry kind item = .ok (name, init) ∧
      isName symbols name = true ∧ (kind = .rest → ∀ param ∈ taken, param.kind ≠ .rest) ∧
      (parseItems markers (announce symbols kind name).2 kind
        ({ name, kind, init, keyword := (announce symbols kind name).1 } :: taken) items).1 =
          .ok params := by
  unfold parseItems at parsed
  split at parsed
  · next symbol later starts =>
      split at parsed
      · cases parsed
      · next order => exact .inl ⟨symbol, later, starts, Nat.not_le.mp order, parsed⟩
  · next unmarked =>
      split at parsed
      · cases parsed
      · next name init found =>
          split at parsed
          · cases parsed
          · next named =>
              split at parsed
              · cases parsed
              · next single =>
                  exact .inr ⟨name, init, unmarked, found, by simpa using named,
                    by simpa using single, parsed⟩

/-- At the end the parameters are there, and a rest section has its name. -/
theorem parseItems_nil_ok (parsed : (parseItems markers symbols kind taken []).1 = .ok params) :
    taken.reverse = params ∧ (kind = .rest → ∃ param ∈ taken, param.kind = .rest) := by
  unfold parseItems at parsed
  split at parsed
  · cases parsed
  · next complete =>
      cases parsed
      exact ⟨rfl, by simpa using complete⟩

/-! ## Symbols -/

theorem announce_internsKeywords (symbols : SymbolStore) (kind : ParamKind) (name : SymbolId) :
    symbols.InternsKeywords (announce symbols kind name).2 := by
  cases kind with
  | keyword => exact .single ⟨_, rfl⟩
  | _ => exact .refl

theorem parseItems_internsKeywords (markers : Markers) (symbols : SymbolStore) (kind : ParamKind)
    (taken : List (Param Value)) (items : List Value) :
    symbols.InternsKeywords (parseItems markers symbols kind taken items).2 := by
  induction items generalizing symbols kind taken with
  | nil =>
      unfold parseItems
      split <;> exact .refl
  | cons item items ih =>
      unfold parseItems
      split
      · split
        · exact .refl
        · exact ih _ _ _
      · split
        · exact .refl
        · next name init _ =>
            split
            · exact .refl
            · split
              · exact .refl
              · exact (announce_internsKeywords symbols kind name).trans (ih _ _ _)

/-- Parsing interns keywords and does nothing else. -/
theorem parse_internsKeywords (markers : Markers) (symbols : SymbolStore) (list : Value) :
    symbols.InternsKeywords (parse markers symbols list).2 := by
  unfold parse
  split
  · exact parseItems_internsKeywords markers symbols _ _ _
  · exact .refl

/-! ## Names -/

theorem plain_of_parseItems {store : SymbolStore} (interns : store.InternsKeywords symbols)
    (parsed : (parseItems markers symbols kind taken items).1 = .ok params)
    (takenPlain : ∀ param ∈ taken, param.name < store.count →
      store.kindOf param.name = .plain) :
    ∀ param ∈ params, param.name < store.count → store.kindOf param.name = .plain := by
  induction items generalizing symbols kind taken with
  | nil =>
      obtain ⟨rfl, _⟩ := parseItems_nil_ok parsed
      exact fun param member => takenPlain param (List.mem_reverse.mp member)
  | cons item items ih =>
      rcases parseItems_cons_ok parsed with
        ⟨_, _, _, _, parsed⟩ | ⟨name, _, _, _, named, _, parsed⟩
      · exact ih interns parsed takenPlain
      · refine ih (interns.trans (announce_internsKeywords symbols kind name)) parsed
          (List.forall_mem_cons.mpr ⟨?_, takenPlain⟩)
        intro known
        rw [← interns.kindOf_eq known]
        exact of_decide_eq_true named

/-- Only plain symbols are accepted as parameters. -/
theorem plain_of_parse {list : Value} (parsed : (parse markers symbols list).1 = .ok params) :
    ∀ param ∈ params, param.name < symbols.count → symbols.kindOf param.name = .plain := by
  unfold parse at parsed
  split at parsed
  · exact plain_of_parseItems .refl parsed (by simp)
  · cases parsed

end ObjectLisp.LambdaList
