import SchemaTree.Disk
import SchemaTree.Proofs.Sequence

/-!
# The order of the nodes of a disk

No two nodes of a disk are at one place. So the order in which they are listed decides nothing: every
path of a reordered disk stands for the same as before.
-/

namespace SchemaTree

namespace Disk

/-- Two disks with the same nodes in any order, no two nodes at one place. -/
structure Reordered (a b : Disk) : Prop where
  perm : a.nodes.Perm b.nodes
  distinct : (a.nodes.map (·.1)).Nodup
  home : a.home = b.home
  locked : a.locked = b.locked

namespace Reordered

variable {a b : Disk}

theorem node? (h : Reordered a b) (parts : List String) : a.node? parts = b.node? parts := by
  unfold Disk.node?
  rw [lookup_eq_of_perm h.perm h.distinct parts, h.perm.any_eq, h.home]

theorem step (h : Reordered a b) : a.step = b.step := by
  funext place part
  unfold Disk.step
  simp only [h.node?, h.locked]

theorem locate (h : Reordered a b) (text : String) : a.locate text = b.locate text := by
  unfold Disk.locate Disk.start
  rw [h.step, h.home]

theorem look (h : Reordered a b) (text : String) : a.look text = b.look text := by
  unfold Disk.look
  simp only [h.locate, h.node?]

theorem read (h : Reordered a b) (text : String) : a.read text = b.read text := by
  unfold Disk.read
  rw [h.look, h.locked]

theorem isFile (h : Reordered a b) (text : String) : a.isFile text = b.isFile text := by
  unfold Disk.isFile
  rw [h.look]

theorem isDirectory (h : Reordered a b) (text : String) : a.isDirectory text = b.isDirectory text := by
  unfold Disk.isDirectory
  rw [h.look]

theorem exists? (h : Reordered a b) (text : String) : a.exists? text = b.exists? text := by
  unfold Disk.exists?
  rw [h.isFile, h.isDirectory]

end Reordered
end Disk
end SchemaTree
