import AgeCrypt.Asking

/-!
# What a computation asks

The questions of a computation depend on the answers that it gets: `Asking.asked` lists them, if a
function answers.  Only the answers to these matter (`Asking.run_congr`).
-/

namespace AgeCrypt
namespace Asking

variable {Q A α β : Type} {f g : Q → A}

/-- The questions that are asked, in order, if `f` answers them. -/
def asked (f : Q → A) : Asking Q A α → List Q
  | done _ => []
  | ask q next => q :: (next (f q)).asked f

@[simp] theorem run_done (a : α) : (done a : Asking Q A α).run f = a := rfl

@[simp] theorem asked_done (a : α) : (done a : Asking Q A α).asked f = [] := rfl

@[simp] theorem run_pure (a : α) : (pure a : Asking Q A α).run f = a := rfl

@[simp] theorem asked_pure (a : α) : (pure a : Asking Q A α).asked f = [] := rfl

@[simp] theorem run_ask (q : Q) (next : A → Asking Q A α) :
    (ask q next).run f = (next (f q)).run f := rfl

@[simp] theorem asked_ask (q : Q) (next : A → Asking Q A α) :
    (ask q next).asked f = q :: (next (f q)).asked f := rfl

/-- What comes of one computation after another is what the second makes of the first. -/
@[simp] theorem run_bind (t : Asking Q A α) (k : α → Asking Q A β) :
    (t >>= k).run f = (k (t.run f)).run f := by
  induction t with
  | done a => rfl
  | ask q next ih => exact ih _

/-- The questions of the first computation come first; which the second asks depends on the answers.
-/
@[simp] theorem asked_bind (t : Asking Q A α) (k : α → Asking Q A β) :
    (t >>= k).asked f = t.asked f ++ (k (t.run f)).asked f := by
  induction t with
  | done a => rfl
  | ask q next ih => exact congrArg (q :: ·) (ih _)

/-- Two ways to answer that agree on what is asked come to the same. -/
theorem run_congr {t : Asking Q A α} (h : ∀ q ∈ t.asked f, f q = g q) : t.run f = t.run g := by
  induction t with
  | done a => rfl
  | ask q next ih =>
      have hq := h q (List.mem_cons_self ..)
      have hnext := ih _ fun r hr => h r (List.mem_cons_of_mem _ hr)
      rw [run, run, hnext, hq]

end Asking
end AgeCrypt
