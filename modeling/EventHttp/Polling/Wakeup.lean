/-! A counter that wakes whoever waits for it. -/

namespace EventHttp

structure Wakeup where
  count : Nat
  deriving DecidableEq, Repr

namespace Wakeup

def empty : Wakeup := ⟨0⟩

def maxCount : Nat := 0xFFFFFFFFFFFFFFFE

/-- One more notification.  A counter that is full has a wakeup pending anyway. -/
def notify (w : Wakeup) : Wakeup :=
  if w.count < maxCount then ⟨w.count + 1⟩ else w

theorem count_le_count_notify (w : Wakeup) : w.count ≤ w.notify.count := by
  unfold notify
  split
  · exact Nat.le_succ w.count
  · exact Nat.le_refl w.count

def drain (w : Wakeup) : Nat × Wakeup :=
  (w.count, empty)

def isSignalled (w : Wakeup) : Bool :=
  0 < w.count

end Wakeup
end EventHttp
