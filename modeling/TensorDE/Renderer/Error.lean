import TensorDE.Lib.Effect

namespace TensorDE.Renderer

inductive UploadBeltLimit where
  | chunkCount (limit : Nat)
  | retainedBytes (limit : Nat)
deriving DecidableEq

/-- The renderer's errors, as far as the modelled components raise or pass them on. -/
inductive Error where
  | vulkan (operation : String) (source : Int)
  | uploadBeltExhausted (limit : UploadBeltLimit)
  | validation (message : String)
  | timelineExhausted
deriving DecidableEq

end TensorDE.Renderer
