import Iamf.MixPresentation

/-! The parameter definitions that govern Parameter Blocks, in the order they were seen. -/
namespace Iamf.Wire

inductive ParameterDataContext where
  | mixGain
  | demixing
  | reconGain (reconGainIsPresent : List Bool)
  | reserved (value : UInt32)
  deriving DecidableEq, Repr

structure RegisteredParamDefinition where
  definition : ParamDefinition
  context : ParameterDataContext
  deriving DecidableEq

structure ParamDefinitionRegistry where
  entries : List RegisteredParamDefinition
  deriving DecidableEq

namespace ParamDefinitionRegistry

def new : ParamDefinitionRegistry := ⟨[]⟩

def register (r : ParamDefinitionRegistry) (definition : ParamDefinition) (context : ParameterDataContext) :
    ParamDefinitionRegistry := ⟨r.entries ++ [⟨definition, context⟩]⟩

def get (r : ParamDefinitionRegistry) (parameterId : UInt32) : Option RegisteredParamDefinition :=
  r.entries.find? fun entry => entry.definition.parameterId == parameterId

theorem getId {r : ParamDefinitionRegistry} {id : UInt32} {entry : RegisteredParamDefinition}
    (found : r.get id = some entry) : entry.definition.parameterId = id := by
  simpa using List.find?_some found

def observeParam (reconGainIsPresent : List Bool) (r : ParamDefinitionRegistry) (param : AudioElementParam) :
    ParamDefinitionRegistry :=
  match param with
  | .demixing definition .. => r.register definition .demixing
  | .reconGain definition => r.register definition (.reconGain reconGainIsPresent)
  | .extension .. => r

def reconGainIsPresent (element : AudioElement) : List Bool :=
  match element.audioElementType with
  | .channelBased config => config.layers.map (·.reconGainIsPresent)
  | _ => []

def observeAudioElement (r : ParamDefinitionRegistry) (element : AudioElement) : ParamDefinitionRegistry :=
  element.params.foldl (observeParam (reconGainIsPresent element)) r

def observeSubMix (r : ParamDefinitionRegistry) (subMix : SubMix) : ParamDefinitionRegistry :=
  (subMix.elements.foldl (fun r element => r.register element.elementMixGain.definition .mixGain) r).register
    subMix.outputMixGain.definition .mixGain

def observeMixPresentation (r : ParamDefinitionRegistry) (presentation : MixPresentation) :
    ParamDefinitionRegistry := presentation.subMixes.foldl observeSubMix r

end ParamDefinitionRegistry

end Iamf.Wire
