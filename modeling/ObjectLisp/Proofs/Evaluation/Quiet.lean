import ObjectLisp.Interp.Basic
import ObjectLisp.Proofs.Symbols.Interning

/-!
# Quiet changes

Lexical frames, closures, dynamic bindings and the depth of calls are the
control part of an interpreter.  Most changes of a state are quiet: they leave
the control part and the globals alone.  They make data, change classes, operate
on the symbols, or write text.
-/

namespace ObjectLisp

/-- Two states with the same control part. -/
structure Interp.SameControl (before after : Interp) : Prop where
  frames : after.frames = before.frames
  dynamic : after.dynamic = before.dynamic
  depth : after.depth = before.depth
  config : after.config = before.config
  closures : after.heap.closures = before.heap.closures

namespace Interp.SameControl

theorem refl (interp : Interp) : interp.SameControl interp :=
  ⟨rfl, rfl, rfl, rfl, rfl⟩

theorem trans {first second third : Interp} (left : first.SameControl second)
    (right : second.SameControl third) : first.SameControl third :=
  ⟨right.frames.trans left.frames, right.dynamic.trans left.dynamic,
    right.depth.trans left.depth, right.config.trans left.config,
    right.closures.trans left.closures⟩

theorem symm {before after : Interp} (same : before.SameControl after) :
    after.SameControl before :=
  ⟨same.frames.symm, same.dynamic.symm, same.depth.symm, same.config.symm, same.closures.symm⟩

/-- A heap with the same closures may take the place of the heap. -/
theorem heap (interp : Interp) {heap : Heap} (closures : heap.closures = interp.heap.closures) :
    interp.SameControl { interp with heap } :=
  ⟨rfl, rfl, rfl, rfl, closures⟩

end Interp.SameControl

/-- Two states with the same control part, globals and words, between which the symbols were
operated on at most.  The current package is the same or another one that exists. -/
structure Interp.Quiet (before after : Interp) : Prop extends before.SameControl after where
  globals : after.globals = before.globals
  words : after.words = before.words
  symbols : before.symbols.Leads after.symbols
  package : after.package = before.package ∨ after.package < after.symbols.packages.size

namespace Interp.Quiet

theorem refl (interp : Interp) : interp.Quiet interp :=
  ⟨.refl interp, rfl, rfl, .refl, .inl rfl⟩

theorem trans {first second third : Interp} (left : first.Quiet second)
    (right : second.Quiet third) : first.Quiet third := by
  refine ⟨left.toSameControl.trans right.toSameControl, right.globals.trans left.globals,
    right.words.trans left.words, left.symbols.trans right.symbols, ?_⟩
  rcases right.package with same | inside
  · rcases left.package with same' | inside'
    · exact .inl (same.trans same')
    · exact .inr (same ▸ Nat.lt_of_lt_of_le inside' right.symbols.size_le)
  · exact .inr inside

theorem heap (interp : Interp) {heap : Heap} (closures : heap.closures = interp.heap.closures) :
    interp.Quiet { interp with heap } :=
  ⟨.heap interp closures, rfl, rfl, .refl, .inl rfl⟩

/-- A store that the symbols lead to may take their place. -/
theorem leading (interp : Interp) {symbols : SymbolStore} (leads : interp.symbols.Leads symbols) :
    interp.Quiet { interp with symbols } :=
  ⟨⟨rfl, rfl, rfl, rfl, rfl⟩, rfl, rfl, leads, .inl rfl⟩

end Interp.Quiet

end ObjectLisp
