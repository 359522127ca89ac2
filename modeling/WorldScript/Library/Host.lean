import WorldScript.Library.Basic

/-! # Functions of a host

Two sorts of functions that a host can add to a library: one that writes its argument down, and
one whose answer is fixed in advance. -/

namespace WorldScript.Function

/-- A function that notes the text of its argument. -/
def note (name : String) (parameter : Ty) : Function :=
  ⟨name, [parameter], .void, fun args w =>
    match args with
    | v :: _ => (.ok .null, w.note (w.heap.render v))
    | [] => (.ok .null, w)⟩

/-- A function that ignores its arguments. All its calls give the same value. -/
def constant (name : String) (parameters : List Ty) (returns : Ty)
    (result : Except String Value) : Function :=
  ⟨name, parameters, returns, fun _ w => (result.mapError .host, w)⟩

end WorldScript.Function
