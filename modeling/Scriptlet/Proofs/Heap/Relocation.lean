import Scriptlet.Heap.Render
import Scriptlet.Proofs.Program.Relocation

/-!
Heaps whose functions have other locations. No operation on objects looks at a location, so the
locations can be changed before or after it.
-/

namespace Scriptlet

variable {α β : Type} (g : α → β)

def Object.map : Object α → Object β
  | .function d closure => .function (d.map g) closure
  | .array items => .array items
  | .string text => .string text

def Cell.map (c : Cell α) : Cell β := ⟨c.count, c.object.map g⟩

theorem Object.held_map (o : Object α) : (o.map g).held = o.held := by
  cases o <;> rfl

theorem Object.map_id (o : Object α) : o.map id = o := by
  cases o with
  | function d closure => rw [Object.map, functionDef_map_id]
  | array items => rfl
  | string text => rfl

namespace Heap

def map (h : Heap α) : Heap β := ⟨h.cells.map (Option.map (Cell.map g)), h.live⟩

variable (h : Heap α)

theorem map_empty : (empty : Heap α).map g = empty := by simp [map, empty]

theorem map_id : h.map id = h := by
  have hcell : Option.map (Cell.map (id : α → α)) = id := by
    funext c
    cases c with
    | none => rfl
    | some c => exact congrArg (fun o => some (Cell.mk c.count o)) c.object.map_id
  rw [map, hcell, Array.map_id]

theorem size_map : (h.map g).cells.size = h.cells.size := Array.size_map

theorem cell?_map (r : Nat) : (h.map g).cell? r = (h.cell? r).map (Cell.map g) := by
  simp only [cell?, map, Array.getElem?_map]
  cases h.cells[r]? <;> rfl

theorem alloc_map (o : Object α) :
    (h.map g).alloc (o.map g) = ((h.alloc o).1, (h.alloc o).2.map g) := by
  simp [alloc, map, Cell.map]

theorem modify_map {f : Cell α → Cell α} {f' : Cell β → Cell β}
    (hf : ∀ c, f' (c.map g) = (f c).map g) (r : Nat) :
    (h.map g).modify r f' = (h.modify r f).map g := by
  have hcells : (h.cells.map (Option.map (Cell.map g))).modify r (Option.map f') =
      (h.cells.modify r (Option.map f)).map (Option.map (Cell.map g)) := by
    refine Array.ext (by simp) fun i hi hi' => ?_
    by_cases hri : r = i
    · subst hri
      simp [Array.getElem_modify, Function.comp_def, hf]
    · simp [Array.getElem_modify, hri]
  simp only [modify, map, hcells]

theorem retain_map (v : Value) : (h.map g).retain v = (h.retain v).map g := by
  unfold retain
  split
  · rfl
  · exact modify_map g h (fun _ => rfl) _

theorem retainAll_map (vs : List Value) : (h.map g).retainAll vs = (h.retainAll vs).map g := by
  induction vs generalizing h with
  | nil => rfl
  | cons v vs ih =>
    have hstep := ih (h.retain v)
    rw [← retain_map] at hstep
    exact hstep

theorem free_map (r : Nat) : (h.map g).free r = (h.free r).map g := by
  simp [free, map, Array.map_setIfInBounds]

theorem unhold_map (v : Value) :
    (h.map g).unhold v = ((h.unhold v).1.map g, (h.unhold v).2) := by
  unfold unhold
  split
  · rfl
  · rename_i r _
    rw [cell?_map]
    cases h.cell? r with
    | none => rfl
    | some c =>
      have hfewer : (h.map g).modify r (fun c => ⟨c.count - 1, c.object⟩) =
          (h.modify r fun c => ⟨c.count - 1, c.object⟩).map g := modify_map g h (fun _ => rfl) r
      by_cases hlast : c.count ≤ 1
      · simp [Cell.map, hlast, free_map, Object.held_map]
      · simp [Cell.map, hlast, hfewer]

theorem releaseAll_map (vs : List Value) :
    (h.map g).releaseAll vs = (h.releaseAll vs).map g := by
  fun_induction releaseAll h vs with
  | case1 h => rw [releaseAll]
  | case2 h v vs freed ih =>
    rw [releaseAll, unhold_map]
    exact ih

/-! ### Looking at objects -/

theorem function?_map (r : Nat) :
    (h.map g).function? r = (h.function? r).map fun (d, closure) => (d.map g, closure) := by
  rw [function?, function?, cell?_map]
  rcases h.cell? r with - | ⟨n, d | items | text⟩ <;> rfl

theorem items_map (r : Nat) : (h.map g).items r = h.items r := by
  rw [items, items, items?, items?, cell?_map]
  rcases h.cell? r with - | ⟨n, d | items | text⟩ <;> rfl

theorem text_map (r : Nat) : (h.map g).text r = h.text r := by
  rw [text, text, text?, text?, cell?_map]
  rcases h.cell? r with - | ⟨n, d | items | text⟩ <;> rfl

theorem modifyItems_map (r : Nat) (f : Array Value → Array Value) :
    (h.map g).modifyItems r f = (h.modifyItems r f).map g := by
  refine modify_map g h (fun c => ?_) r
  rcases c with ⟨n, d | items | text⟩ <;> rfl

theorem plainText_map (v : Value) : (h.map g).plainText v = h.plainText v := by
  cases v with
  | function r =>
    simp only [plainText, functionName, function?_map]
    cases h.function? r <;> rfl
  | string r => exact text_map g h r
  | _ => rfl

theorem renderWithin_map (n : Nat) (v : Value) :
    (h.map g).renderWithin n v = h.renderWithin n v := by
  have hplain : ∀ v, (h.map g).plainText v = h.plainText v := plainText_map g h
  induction n generalizing v with
  | zero => simp only [renderWithin, hplain]
  | succ n ih =>
    cases v with
    | array r => simp only [renderWithin, items_map, funext ih]
    | _ => simp only [renderWithin, hplain]

theorem render_map (v : Value) : (h.map g).render v = h.render v := by
  rw [render, render, size_map, renderWithin_map]

theorem count?_map (v : Value) : (h.map g).count? v = h.count? v := by
  simp only [count?, cell?_map, Option.bind_eq_bind]
  cases v.ref? with
  | none => rfl
  | some r =>
    simp only [Option.bind_some]
    cases h.cell? r <;> rfl

end Heap

end Scriptlet
