/-!
# The instructions of the grammar

Every known instruction: its opcode number, its name, and where among its operands
the id stands that it defines. Numbers that are not listed belong to no known
instruction. The list is in ascending order of numbers.
-/
namespace SpirvModule.Grammar

/-- Where the id that an instruction defines stands among its operands. An
instruction that has it second has the id of the result's type first. -/
inductive ResultPlace where
  | none
  | first
  | second
  deriving DecidableEq

/-- One known instruction. -/
structure Entry where
  number : Nat
  name : String
  result : ResultPlace
  deriving DecidableEq

/-- All known instructions. -/
def instructions : List Entry := [
  ⟨0, "Nop", .none⟩, ⟨1, "Undef", .second⟩, ⟨2, "SourceContinued", .none⟩, ⟨3, "Source", .none⟩,
  ⟨4, "SourceExtension", .none⟩, ⟨5, "Name", .none⟩, ⟨6, "MemberName", .none⟩,
  ⟨7, "String", .first⟩, ⟨8, "Line", .none⟩, ⟨10, "Extension", .none⟩,
  ⟨11, "ExtInstImport", .first⟩, ⟨12, "ExtInst", .second⟩, ⟨14, "MemoryModel", .none⟩,
  ⟨15, "EntryPoint", .none⟩, ⟨16, "ExecutionMode", .none⟩, ⟨17, "Capability", .none⟩,
  ⟨19, "TypeVoid", .first⟩, ⟨20, "TypeBool", .first⟩, ⟨21, "TypeInt", .first⟩,
  ⟨22, "TypeFloat", .first⟩, ⟨23, "TypeVector", .first⟩, ⟨24, "TypeMatrix", .first⟩,
  ⟨25, "TypeImage", .first⟩, ⟨26, "TypeSampler", .first⟩, ⟨27, "TypeSampledImage", .first⟩,
  ⟨28, "TypeArray", .first⟩, ⟨29, "TypeRuntimeArray", .first⟩, ⟨30, "TypeStruct", .first⟩,
  ⟨31, "TypeOpaque", .first⟩, ⟨32, "TypePointer", .first⟩, ⟨33, "TypeFunction", .first⟩,
  ⟨34, "TypeEvent", .first⟩, ⟨35, "TypeDeviceEvent", .first⟩, ⟨36, "TypeReserveId", .first⟩,
  ⟨37, "TypeQueue", .first⟩, ⟨38, "TypePipe", .first⟩, ⟨39, "TypeForwardPointer", .none⟩,
  ⟨41, "ConstantTrue", .second⟩, ⟨42, "ConstantFalse", .second⟩, ⟨43, "Constant", .second⟩,
  ⟨44, "ConstantComposite", .second⟩, ⟨45, "ConstantSampler", .second⟩,
  ⟨46, "ConstantNull", .second⟩, ⟨48, "SpecConstantTrue", .second⟩,
  ⟨49, "SpecConstantFalse", .second⟩, ⟨50, "SpecConstant", .second⟩,
  ⟨51, "SpecConstantComposite", .second⟩, ⟨52, "SpecConstantOp", .second⟩,
  ⟨54, "Function", .second⟩, ⟨55, "FunctionParameter", .second⟩, ⟨56, "FunctionEnd", .none⟩,
  ⟨57, "FunctionCall", .second⟩, ⟨59, "Variable", .second⟩, ⟨60, "ImageTexelPointer", .second⟩,
  ⟨61, "Load", .second⟩, ⟨62, "Store", .none⟩, ⟨63, "CopyMemory", .none⟩,
  ⟨64, "CopyMemorySized", .none⟩, ⟨65, "AccessChain", .second⟩,
  ⟨66, "InBoundsAccessChain", .second⟩, ⟨67, "PtrAccessChain", .second⟩,
  ⟨68, "ArrayLength", .second⟩, ⟨69, "GenericPtrMemSemantics", .second⟩,
  ⟨70, "InBoundsPtrAccessChain", .second⟩, ⟨71, "Decorate", .none⟩,
  ⟨72, "MemberDecorate", .none⟩, ⟨73, "DecorationGroup", .first⟩, ⟨74, "GroupDecorate", .none⟩,
  ⟨75, "GroupMemberDecorate", .none⟩, ⟨77, "VectorExtractDynamic", .second⟩,
  ⟨78, "VectorInsertDynamic", .second⟩, ⟨79, "VectorShuffle", .second⟩,
  ⟨80, "CompositeConstruct", .second⟩, ⟨81, "CompositeExtract", .second⟩,
  ⟨82, "CompositeInsert", .second⟩, ⟨83, "CopyObject", .second⟩, ⟨84, "Transpose", .second⟩,
  ⟨86, "SampledImage", .second⟩, ⟨87, "ImageSampleImplicitLod", .second⟩,
  ⟨88, "ImageSampleExplicitLod", .second⟩, ⟨89, "ImageSampleDrefImplicitLod", .second⟩,
  ⟨90, "ImageSampleDrefExplicitLod", .second⟩, ⟨91, "ImageSampleProjImplicitLod", .second⟩,
  ⟨92, "ImageSampleProjExplicitLod", .second⟩, ⟨93, "ImageSampleProjDrefImplicitLod", .second⟩,
  ⟨94, "ImageSampleProjDrefExplicitLod", .second⟩, ⟨95, "ImageFetch", .second⟩,
  ⟨96, "ImageGather", .second⟩, ⟨97, "ImageDrefGather", .second⟩, ⟨98, "ImageRead", .second⟩,
  ⟨99, "ImageWrite", .none⟩, ⟨100, "Image", .second⟩, ⟨101, "ImageQueryFormat", .second⟩,
  ⟨102, "ImageQueryOrder", .second⟩, ⟨103, "ImageQuerySizeLod", .second⟩,
  ⟨104, "ImageQuerySize", .second⟩, ⟨105, "ImageQueryLod", .second⟩,
  ⟨106, "ImageQueryLevels", .second⟩, ⟨107, "ImageQuerySamples", .second⟩,
  ⟨109, "ConvertFToU", .second⟩, ⟨110, "ConvertFToS", .second⟩, ⟨111, "ConvertSToF", .second⟩,
  ⟨112, "ConvertUToF", .second⟩, ⟨113, "UConvert", .second⟩, ⟨114, "SConvert", .second⟩,
  ⟨115, "FConvert", .second⟩, ⟨116, "QuantizeToF16", .second⟩, ⟨117, "ConvertPtrToU", .second⟩,
  ⟨118, "SatConvertSToU", .second⟩, ⟨119, "SatConvertUToS", .second⟩,
  ⟨120, "ConvertUToPtr", .second⟩, ⟨121, "PtrCastToGeneric", .second⟩,
  ⟨122, "GenericCastToPtr", .second⟩, ⟨123, "GenericCastToPtrExplicit", .second⟩,
  ⟨124, "Bitcast", .second⟩, ⟨126, "SNegate", .second⟩, ⟨127, "FNegate", .second⟩,
  ⟨128, "IAdd", .second⟩, ⟨129, "FAdd", .second⟩, ⟨130, "ISub", .second⟩, ⟨131, "FSub", .second⟩,
  ⟨132, "IMul", .second⟩, ⟨133, "FMul", .second⟩, ⟨134, "UDiv", .second⟩, ⟨135, "SDiv", .second⟩,
  ⟨136, "FDiv", .second⟩, ⟨137, "UMod", .second⟩, ⟨138, "SRem", .second⟩, ⟨139, "SMod", .second⟩,
  ⟨140, "FRem", .second⟩, ⟨141, "FMod", .second⟩, ⟨142, "VectorTimesScalar", .second⟩,
  ⟨143, "MatrixTimesScalar", .second⟩, ⟨144, "VectorTimesMatrix", .second⟩,
  ⟨145, "MatrixTimesVector", .second⟩, ⟨146, "MatrixTimesMatrix", .second⟩,
  ⟨147, "OuterProduct", .second⟩, ⟨148, "Dot", .second⟩, ⟨149, "IAddCarry", .second⟩,
  ⟨150, "ISubBorrow", .second⟩, ⟨151, "UMulExtended", .second⟩, ⟨152, "SMulExtended", .second⟩,
  ⟨154, "Any", .second⟩, ⟨155, "All", .second⟩, ⟨156, "IsNan", .second⟩, ⟨157, "IsInf", .second⟩,
  ⟨158, "IsFinite", .second⟩, ⟨159, "IsNormal", .second⟩, ⟨160, "SignBitSet", .second⟩,
  ⟨161, "LessOrGreater", .second⟩, ⟨162, "Ordered", .second⟩, ⟨163, "Unordered", .second⟩,
  ⟨164, "LogicalEqual", .second⟩, ⟨165, "LogicalNotEqual", .second⟩, ⟨166, "LogicalOr", .second⟩,
  ⟨167, "LogicalAnd", .second⟩, ⟨168, "LogicalNot", .second⟩, ⟨169, "Select", .second⟩,
  ⟨170, "IEqual", .second⟩, ⟨171, "INotEqual", .second⟩, ⟨172, "UGreaterThan", .second⟩,
  ⟨173, "SGreaterThan", .second⟩, ⟨174, "UGreaterThanEqual", .second⟩,
  ⟨175, "SGreaterThanEqual", .second⟩, ⟨176, "ULessThan", .second⟩, ⟨177, "SLessThan", .second⟩,
  ⟨178, "ULessThanEqual", .second⟩, ⟨179, "SLessThanEqual", .second⟩,
  ⟨180, "FOrdEqual", .second⟩, ⟨181, "FUnordEqual", .second⟩, ⟨182, "FOrdNotEqual", .second⟩,
  ⟨183, "FUnordNotEqual", .second⟩, ⟨184, "FOrdLessThan", .second⟩,
  ⟨185, "FUnordLessThan", .second⟩, ⟨186, "FOrdGreaterThan", .second⟩,
  ⟨187, "FUnordGreaterThan", .second⟩, ⟨188, "FOrdLessThanEqual", .second⟩,
  ⟨189, "FUnordLessThanEqual", .second⟩, ⟨190, "FOrdGreaterThanEqual", .second⟩,
  ⟨191, "FUnordGreaterThanEqual", .second⟩, ⟨194, "ShiftRightLogical", .second⟩,
  ⟨195, "ShiftRightArithmetic", .second⟩, ⟨196, "ShiftLeftLogical", .second⟩,
  ⟨197, "BitwiseOr", .second⟩, ⟨198, "BitwiseXor", .second⟩, ⟨199, "BitwiseAnd", .second⟩,
  ⟨200, "Not", .second⟩, ⟨201, "BitFieldInsert", .second⟩, ⟨202, "BitFieldSExtract", .second⟩,
  ⟨203, "BitFieldUExtract", .second⟩, ⟨204, "BitReverse", .second⟩, ⟨205, "BitCount", .second⟩,
  ⟨207, "DPdx", .second⟩, ⟨208, "DPdy", .second⟩, ⟨209, "Fwidth", .second⟩,
  ⟨210, "DPdxFine", .second⟩, ⟨211, "DPdyFine", .second⟩, ⟨212, "FwidthFine", .second⟩,
  ⟨213, "DPdxCoarse", .second⟩, ⟨214, "DPdyCoarse", .second⟩, ⟨215, "FwidthCoarse", .second⟩,
  ⟨218, "EmitVertex", .none⟩, ⟨219, "EndPrimitive", .none⟩, ⟨220, "EmitStreamVertex", .none⟩,
  ⟨221, "EndStreamPrimitive", .none⟩, ⟨224, "ControlBarrier", .none⟩,
  ⟨225, "MemoryBarrier", .none⟩, ⟨227, "AtomicLoad", .second⟩, ⟨228, "AtomicStore", .none⟩,
  ⟨229, "AtomicExchange", .second⟩, ⟨230, "AtomicCompareExchange", .second⟩,
  ⟨231, "AtomicCompareExchangeWeak", .second⟩, ⟨232, "AtomicIIncrement", .second⟩,
  ⟨233, "AtomicIDecrement", .second⟩, ⟨234, "AtomicIAdd", .second⟩, ⟨235, "AtomicISub", .second⟩,
  ⟨236, "AtomicSMin", .second⟩, ⟨237, "AtomicUMin", .second⟩, ⟨238, "AtomicSMax", .second⟩,
  ⟨239, "AtomicUMax", .second⟩, ⟨240, "AtomicAnd", .second⟩, ⟨241, "AtomicOr", .second⟩,
  ⟨242, "AtomicXor", .second⟩, ⟨245, "Phi", .second⟩, ⟨246, "LoopMerge", .none⟩,
  ⟨247, "SelectionMerge", .none⟩, ⟨248, "Label", .first⟩, ⟨249, "Branch", .none⟩,
  ⟨250, "BranchConditional", .none⟩, ⟨251, "Switch", .none⟩, ⟨252, "Kill", .none⟩,
  ⟨253, "Return", .none⟩, ⟨254, "ReturnValue", .none⟩, ⟨255, "Unreachable", .none⟩,
  ⟨256, "LifetimeStart", .none⟩, ⟨257, "LifetimeStop", .none⟩, ⟨259, "GroupAsyncCopy", .second⟩,
  ⟨260, "GroupWaitEvents", .none⟩, ⟨261, "GroupAll", .second⟩, ⟨262, "GroupAny", .second⟩,
  ⟨263, "GroupBroadcast", .second⟩, ⟨264, "GroupIAdd", .second⟩, ⟨265, "GroupFAdd", .second⟩,
  ⟨266, "GroupFMin", .second⟩, ⟨267, "GroupUMin", .second⟩, ⟨268, "GroupSMin", .second⟩,
  ⟨269, "GroupFMax", .second⟩, ⟨270, "GroupUMax", .second⟩, ⟨271, "GroupSMax", .second⟩,
  ⟨274, "ReadPipe", .second⟩, ⟨275, "WritePipe", .second⟩, ⟨276, "ReservedReadPipe", .second⟩,
  ⟨277, "ReservedWritePipe", .second⟩, ⟨278, "ReserveReadPipePackets", .second⟩,
  ⟨279, "ReserveWritePipePackets", .second⟩, ⟨280, "CommitReadPipe", .none⟩,
  ⟨281, "CommitWritePipe", .none⟩, ⟨282, "IsValidReserveId", .second⟩,
  ⟨283, "GetNumPipePackets", .second⟩, ⟨284, "GetMaxPipePackets", .second⟩,
  ⟨285, "GroupReserveReadPipePackets", .second⟩, ⟨286, "GroupReserveWritePipePackets", .second⟩,
  ⟨287, "GroupCommitReadPipe", .none⟩, ⟨288, "GroupCommitWritePipe", .none⟩,
  ⟨291, "EnqueueMarker", .second⟩, ⟨292, "EnqueueKernel", .second⟩,
  ⟨293, "GetKernelNDrangeSubGroupCount", .second⟩,
  ⟨294, "GetKernelNDrangeMaxSubGroupSize", .second⟩, ⟨295, "GetKernelWorkGroupSize", .second⟩,
  ⟨296, "GetKernelPreferredWorkGroupSizeMultiple", .second⟩, ⟨297, "RetainEvent", .none⟩,
  ⟨298, "ReleaseEvent", .none⟩, ⟨299, "CreateUserEvent", .second⟩,
  ⟨300, "IsValidEvent", .second⟩, ⟨301, "SetUserEventStatus", .none⟩,
  ⟨302, "CaptureEventProfilingInfo", .none⟩, ⟨303, "GetDefaultQueue", .second⟩,
  ⟨304, "BuildNDRange", .second⟩, ⟨305, "ImageSparseSampleImplicitLod", .second⟩,
  ⟨306, "ImageSparseSampleExplicitLod", .second⟩,
  ⟨307, "ImageSparseSampleDrefImplicitLod", .second⟩,
  ⟨308, "ImageSparseSampleDrefExplicitLod", .second⟩,
  ⟨309, "ImageSparseSampleProjImplicitLod", .second⟩,
  ⟨310, "ImageSparseSampleProjExplicitLod", .second⟩,
  ⟨311, "ImageSparseSampleProjDrefImplicitLod", .second⟩,
  ⟨312, "ImageSparseSampleProjDrefExplicitLod", .second⟩, ⟨313, "ImageSparseFetch", .second⟩,
  ⟨314, "ImageSparseGather", .second⟩, ⟨315, "ImageSparseDrefGather", .second⟩,
  ⟨316, "ImageSparseTexelsResident", .second⟩, ⟨317, "NoLine", .none⟩,
  ⟨318, "AtomicFlagTestAndSet", .second⟩, ⟨319, "AtomicFlagClear", .none⟩,
  ⟨320, "ImageSparseRead", .second⟩, ⟨321, "SizeOf", .second⟩, ⟨322, "TypePipeStorage", .first⟩,
  ⟨323, "ConstantPipeStorage", .second⟩, ⟨324, "CreatePipeFromPipeStorage", .second⟩,
  ⟨325, "GetKernelLocalSizeForSubgroupCount", .second⟩,
  ⟨326, "GetKernelMaxNumSubgroups", .second⟩, ⟨327, "TypeNamedBarrier", .first⟩,
  ⟨328, "NamedBarrierInitialize", .second⟩, ⟨329, "MemoryNamedBarrier", .none⟩,
  ⟨330, "ModuleProcessed", .none⟩, ⟨331, "ExecutionModeId", .none⟩, ⟨332, "DecorateId", .none⟩,
  ⟨333, "GroupNonUniformElect", .second⟩, ⟨334, "GroupNonUniformAll", .second⟩,
  ⟨335, "GroupNonUniformAny", .second⟩, ⟨336, "GroupNonUniformAllEqual", .second⟩,
  ⟨337, "GroupNonUniformBroadcast", .second⟩, ⟨338, "GroupNonUniformBroadcastFirst", .second⟩,
  ⟨339, "GroupNonUniformBallot", .second⟩, ⟨340, "GroupNonUniformInverseBallot", .second⟩,
  ⟨341, "GroupNonUniformBallotBitExtract", .second⟩,
  ⟨342, "GroupNonUniformBallotBitCount", .second⟩,
  ⟨343, "GroupNonUniformBallotFindLSB", .second⟩, ⟨344, "GroupNonUniformBallotFindMSB", .second⟩,
  ⟨345, "GroupNonUniformShuffle", .second⟩, ⟨346, "GroupNonUniformShuffleXor", .second⟩,
  ⟨347, "GroupNonUniformShuffleUp", .second⟩, ⟨348, "GroupNonUniformShuffleDown", .second⟩,
  ⟨349, "GroupNonUniformIAdd", .second⟩, ⟨350, "GroupNonUniformFAdd", .second⟩,
  ⟨351, "GroupNonUniformIMul", .second⟩, ⟨352, "GroupNonUniformFMul", .second⟩,
  ⟨353, "GroupNonUniformSMin", .second⟩, ⟨354, "GroupNonUniformUMin", .second⟩,
  ⟨355, "GroupNonUniformFMin", .second⟩, ⟨356, "GroupNonUniformSMax", .second⟩,
  ⟨357, "GroupNonUniformUMax", .second⟩, ⟨358, "GroupNonUniformFMax", .second⟩,
  ⟨359, "GroupNonUniformBitwiseAnd", .second⟩, ⟨360, "GroupNonUniformBitwiseOr", .second⟩,
  ⟨361, "GroupNonUniformBitwiseXor", .second⟩, ⟨362, "GroupNonUniformLogicalAnd", .second⟩,
  ⟨363, "GroupNonUniformLogicalOr", .second⟩, ⟨364, "GroupNonUniformLogicalXor", .second⟩,
  ⟨365, "GroupNonUniformQuadBroadcast", .second⟩, ⟨366, "GroupNonUniformQuadSwap", .second⟩,
  ⟨400, "CopyLogical", .second⟩, ⟨401, "PtrEqual", .second⟩, ⟨402, "PtrNotEqual", .second⟩,
  ⟨403, "PtrDiff", .second⟩, ⟨4160, "ColorAttachmentReadEXT", .second⟩,
  ⟨4161, "DepthAttachmentReadEXT", .second⟩, ⟨4162, "StencilAttachmentReadEXT", .second⟩,
  ⟨4416, "TerminateInvocation", .none⟩, ⟨4421, "SubgroupBallotKHR", .second⟩,
  ⟨4422, "SubgroupFirstInvocationKHR", .second⟩, ⟨4428, "SubgroupAllKHR", .second⟩,
  ⟨4429, "SubgroupAnyKHR", .second⟩, ⟨4430, "SubgroupAllEqualKHR", .second⟩,
  ⟨4431, "GroupNonUniformRotateKHR", .second⟩, ⟨4432, "SubgroupReadInvocationKHR", .second⟩,
  ⟨4445, "TraceRayKHR", .none⟩, ⟨4446, "ExecuteCallableKHR", .none⟩,
  ⟨4447, "ConvertUToAccelerationStructureKHR", .second⟩, ⟨4448, "IgnoreIntersectionKHR", .none⟩,
  ⟨4449, "TerminateRayKHR", .none⟩, ⟨4450, "SDot", .second⟩, ⟨4451, "UDot", .second⟩,
  ⟨4452, "SUDot", .second⟩, ⟨4453, "SDotAccSat", .second⟩, ⟨4454, "UDotAccSat", .second⟩,
  ⟨4455, "SUDotAccSat", .second⟩, ⟨4456, "TypeCooperativeMatrixKHR", .first⟩,
  ⟨4457, "CooperativeMatrixLoadKHR", .second⟩, ⟨4458, "CooperativeMatrixStoreKHR", .none⟩,
  ⟨4459, "CooperativeMatrixMulAddKHR", .second⟩, ⟨4460, "CooperativeMatrixLengthKHR", .second⟩,
  ⟨4472, "TypeRayQueryKHR", .first⟩, ⟨4473, "RayQueryInitializeKHR", .none⟩,
  ⟨4474, "RayQueryTerminateKHR", .none⟩, ⟨4475, "RayQueryGenerateIntersectionKHR", .none⟩,
  ⟨4476, "RayQueryConfirmIntersectionKHR", .none⟩, ⟨4477, "RayQueryProceedKHR", .second⟩,
  ⟨4479, "RayQueryGetIntersectionTypeKHR", .second⟩, ⟨4480, "ImageSampleWeightedQCOM", .second⟩,
  ⟨4481, "ImageBoxFilterQCOM", .second⟩, ⟨4482, "ImageBlockMatchSSDQCOM", .second⟩,
  ⟨4483, "ImageBlockMatchSADQCOM", .second⟩, ⟨5000, "GroupIAddNonUniformAMD", .second⟩,
  ⟨5001, "GroupFAddNonUniformAMD", .second⟩, ⟨5002, "GroupFMinNonUniformAMD", .second⟩,
  ⟨5003, "GroupUMinNonUniformAMD", .second⟩, ⟨5004, "GroupSMinNonUniformAMD", .second⟩,
  ⟨5005, "GroupFMaxNonUniformAMD", .second⟩, ⟨5006, "GroupUMaxNonUniformAMD", .second⟩,
  ⟨5007, "GroupSMaxNonUniformAMD", .second⟩, ⟨5011, "FragmentMaskFetchAMD", .second⟩,
  ⟨5012, "FragmentFetchAMD", .second⟩, ⟨5056, "ReadClockKHR", .second⟩,
  ⟨5075, "FinalizeNodePayloadsAMDX", .none⟩, ⟨5078, "FinishWritingNodePayloadAMDX", .second⟩,
  ⟨5090, "InitializeNodePayloadsAMDX", .none⟩, ⟨5249, "HitObjectRecordHitMotionNV", .none⟩,
  ⟨5250, "HitObjectRecordHitWithIndexMotionNV", .none⟩,
  ⟨5251, "HitObjectRecordMissMotionNV", .none⟩, ⟨5252, "HitObjectGetWorldToObjectNV", .second⟩,
  ⟨5253, "HitObjectGetObjectToWorldNV", .second⟩,
  ⟨5254, "HitObjectGetObjectRayDirectionNV", .second⟩,
  ⟨5255, "HitObjectGetObjectRayOriginNV", .second⟩, ⟨5256, "HitObjectTraceRayMotionNV", .none⟩,
  ⟨5257, "HitObjectGetShaderRecordBufferHandleNV", .second⟩,
  ⟨5258, "HitObjectGetShaderBindingTableRecordIndexNV", .second⟩,
  ⟨5259, "HitObjectRecordEmptyNV", .none⟩, ⟨5260, "HitObjectTraceRayNV", .none⟩,
  ⟨5261, "HitObjectRecordHitNV", .none⟩, ⟨5262, "HitObjectRecordHitWithIndexNV", .none⟩,
  ⟨5263, "HitObjectRecordMissNV", .none⟩, ⟨5264, "HitObjectExecuteShaderNV", .none⟩,
  ⟨5265, "HitObjectGetCurrentTimeNV", .second⟩, ⟨5266, "HitObjectGetAttributesNV", .none⟩,
  ⟨5267, "HitObjectGetHitKindNV", .second⟩, ⟨5268, "HitObjectGetPrimitiveIndexNV", .second⟩,
  ⟨5269, "HitObjectGetGeometryIndexNV", .second⟩, ⟨5270, "HitObjectGetInstanceIdNV", .second⟩,
  ⟨5271, "HitObjectGetInstanceCustomIndexNV", .second⟩,
  ⟨5272, "HitObjectGetWorldRayDirectionNV", .second⟩,
  ⟨5273, "HitObjectGetWorldRayOriginNV", .second⟩, ⟨5274, "HitObjectGetRayTMaxNV", .second⟩,
  ⟨5275, "HitObjectGetRayTMinNV", .second⟩, ⟨5276, "HitObjectIsEmptyNV", .second⟩,
  ⟨5277, "HitObjectIsHitNV", .second⟩, ⟨5278, "HitObjectIsMissNV", .second⟩,
  ⟨5279, "ReorderThreadWithHitObjectNV", .none⟩, ⟨5280, "ReorderThreadWithHintNV", .none⟩,
  ⟨5281, "TypeHitObjectNV", .first⟩, ⟨5283, "ImageSampleFootprintNV", .second⟩,
  ⟨5294, "EmitMeshTasksEXT", .none⟩, ⟨5295, "SetMeshOutputsEXT", .none⟩,
  ⟨5296, "GroupNonUniformPartitionNV", .second⟩,
  ⟨5299, "WritePackedPrimitiveIndices4x8NV", .none⟩,
  ⟨5300, "FetchMicroTriangleVertexPositionNV", .second⟩,
  ⟨5301, "FetchMicroTriangleVertexBarycentricNV", .second⟩,
  ⟨5334, "ReportIntersectionKHR", .second⟩, ⟨5335, "IgnoreIntersectionNV", .none⟩,
  ⟨5336, "TerminateRayNV", .none⟩, ⟨5337, "TraceNV", .none⟩, ⟨5338, "TraceMotionNV", .none⟩,
  ⟨5339, "TraceRayMotionNV", .none⟩,
  ⟨5340, "RayQueryGetIntersectionTriangleVertexPositionsKHR", .second⟩,
  ⟨5341, "TypeAccelerationStructureKHR", .first⟩, ⟨5344, "ExecuteCallableNV", .none⟩,
  ⟨5358, "TypeCooperativeMatrixNV", .first⟩, ⟨5359, "CooperativeMatrixLoadNV", .second⟩,
  ⟨5360, "CooperativeMatrixStoreNV", .none⟩, ⟨5361, "CooperativeMatrixMulAddNV", .second⟩,
  ⟨5362, "CooperativeMatrixLengthNV", .second⟩, ⟨5364, "BeginInvocationInterlockEXT", .none⟩,
  ⟨5365, "EndInvocationInterlockEXT", .none⟩, ⟨5380, "DemoteToHelperInvocation", .none⟩,
  ⟨5381, "IsHelperInvocationEXT", .second⟩, ⟨5391, "ConvertUToImageNV", .second⟩,
  ⟨5392, "ConvertUToSamplerNV", .second⟩, ⟨5393, "ConvertImageToUNV", .second⟩,
  ⟨5394, "ConvertSamplerToUNV", .second⟩, ⟨5395, "ConvertUToSampledImageNV", .second⟩,
  ⟨5396, "ConvertSampledImageToUNV", .second⟩, ⟨5397, "SamplerImageAddressingModeNV", .none⟩,
  ⟨5571, "SubgroupShuffleINTEL", .second⟩, ⟨5572, "SubgroupShuffleDownINTEL", .second⟩,
  ⟨5573, "SubgroupShuffleUpINTEL", .second⟩, ⟨5574, "SubgroupShuffleXorINTEL", .second⟩,
  ⟨5575, "SubgroupBlockReadINTEL", .second⟩, ⟨5576, "SubgroupBlockWriteINTEL", .none⟩,
  ⟨5577, "SubgroupImageBlockReadINTEL", .second⟩, ⟨5578, "SubgroupImageBlockWriteINTEL", .none⟩,
  ⟨5580, "SubgroupImageMediaBlockReadINTEL", .second⟩,
  ⟨5581, "SubgroupImageMediaBlockWriteINTEL", .none⟩, ⟨5585, "UCountLeadingZerosINTEL", .second⟩,
  ⟨5586, "UCountTrailingZerosINTEL", .second⟩, ⟨5587, "AbsISubINTEL", .second⟩,
  ⟨5588, "AbsUSubINTEL", .second⟩, ⟨5589, "IAddSatINTEL", .second⟩,
  ⟨5590, "UAddSatINTEL", .second⟩, ⟨5591, "IAverageINTEL", .second⟩,
  ⟨5592, "UAverageINTEL", .second⟩, ⟨5593, "IAverageRoundedINTEL", .second⟩,
  ⟨5594, "UAverageRoundedINTEL", .second⟩, ⟨5595, "ISubSatINTEL", .second⟩,
  ⟨5596, "USubSatINTEL", .second⟩, ⟨5597, "IMul32x16INTEL", .second⟩,
  ⟨5598, "UMul32x16INTEL", .second⟩, ⟨5600, "ConstantFunctionPointerINTEL", .second⟩,
  ⟨5601, "FunctionPointerCallINTEL", .second⟩, ⟨5609, "AsmTargetINTEL", .second⟩,
  ⟨5610, "AsmINTEL", .second⟩, ⟨5611, "AsmCallINTEL", .second⟩, ⟨5614, "AtomicFMinEXT", .second⟩,
  ⟨5615, "AtomicFMaxEXT", .second⟩, ⟨5630, "AssumeTrueKHR", .none⟩, ⟨5631, "ExpectKHR", .second⟩,
  ⟨5632, "DecorateString", .none⟩, ⟨5633, "MemberDecorateString", .none⟩,
  ⟨5699, "VmeImageINTEL", .second⟩, ⟨5700, "TypeVmeImageINTEL", .first⟩,
  ⟨5701, "TypeAvcImePayloadINTEL", .first⟩, ⟨5702, "TypeAvcRefPayloadINTEL", .first⟩,
  ⟨5703, "TypeAvcSicPayloadINTEL", .first⟩, ⟨5704, "TypeAvcMcePayloadINTEL", .first⟩,
  ⟨5705, "TypeAvcMceResultINTEL", .first⟩, ⟨5706, "TypeAvcImeResultINTEL", .first⟩,
  ⟨5707, "TypeAvcImeResultSingleReferenceStreamoutINTEL", .first⟩,
  ⟨5708, "TypeAvcImeResultDualReferenceStreamoutINTEL", .first⟩,
  ⟨5709, "TypeAvcImeSingleReferenceStreaminINTEL", .first⟩,
  ⟨5710, "TypeAvcImeDualReferenceStreaminINTEL", .first⟩,
  ⟨5711, "TypeAvcRefResultINTEL", .first⟩, ⟨5712, "TypeAvcSicResultINTEL", .first⟩,
  ⟨5713, "SubgroupAvcMceGetDefaultInterBaseMultiReferencePenaltyINTEL", .second⟩,
  ⟨5714, "SubgroupAvcMceSetInterBaseMultiReferencePenaltyINTEL", .second⟩,
  ⟨5715, "SubgroupAvcMceGetDefaultInterShapePenaltyINTEL", .second⟩,
  ⟨5716, "SubgroupAvcMceSetInterShapePenaltyINTEL", .second⟩,
  ⟨5717, "SubgroupAvcMceGetDefaultInterDirectionPenaltyINTEL", .second⟩,
  ⟨5718, "SubgroupAvcMceSetInterDirectionPenaltyINTEL", .second⟩,
  ⟨5719, "SubgroupAvcMceGetDefaultIntraLumaShapePenaltyINTEL", .second⟩,
  ⟨5720, "SubgroupAvcMceGetDefaultInterMotionVectorCostTableINTEL", .second⟩,
  ⟨5721, "SubgroupAvcMceGetDefaultHighPenaltyCostTableINTEL", .second⟩,
  ⟨5722, "SubgroupAvcMceGetDefaultMediumPenaltyCostTableINTEL", .second⟩,
  ⟨5723, "SubgroupAvcMceGetDefaultLowPenaltyCostTableINTEL", .second⟩,
  ⟨5724, "SubgroupAvcMceSetMotionVectorCostFunctionINTEL", .second⟩,
  ⟨5725, "SubgroupAvcMceGetDefaultIntraLumaModePenaltyINTEL", .second⟩,
  ⟨5726, "SubgroupAvcMceGetDefaultNonDcLumaIntraPenaltyINTEL", .second⟩,
  ⟨5727, "SubgroupAvcMceGetDefaultIntraChromaModeBasePenaltyINTEL", .second⟩,
  ⟨5728, "SubgroupAvcMceSetAcOnlyHaarINTEL", .second⟩,
  ⟨5729, "SubgroupAvcMceSetSourceInterlacedFieldPolarityINTEL", .second⟩,
  ⟨5730, "SubgroupAvcMceSetSingleReferenceInterlacedFieldPolarityINTEL", .second⟩,
  ⟨5731, "SubgroupAvcMceSetDualReferenceInterlacedFieldPolaritiesINTEL", .second⟩,
  ⟨5732, "SubgroupAvcMceConvertToImePayloadINTEL", .second⟩,
  ⟨5733, "SubgroupAvcMceConvertToImeResultINTEL", .second⟩,
  ⟨5734, "SubgroupAvcMceConvertToRefPayloadINTEL", .second⟩,
  ⟨5735, "SubgroupAvcMceConvertToRefResultINTEL", .second⟩,
  ⟨5736, "SubgroupAvcMceConvertToSicPayloadINTEL", .second⟩,
  ⟨5737, "SubgroupAvcMceConvertToSicResultINTEL", .second⟩,
  ⟨5738, "SubgroupAvcMceGetMotionVectorsINTEL", .second⟩,
  ⟨5739, "SubgroupAvcMceGetInterDistortionsINTEL", .second⟩,
  ⟨5740, "SubgroupAvcMceGetBestInterDistortionsINTEL", .second⟩,
  ⟨5741, "SubgroupAvcMceGetInterMajorShapeINTEL", .second⟩,
  ⟨5742, "SubgroupAvcMceGetInterMinorShapeINTEL", .second⟩,
  ⟨5743, "SubgroupAvcMceGetInterDirectionsINTEL", .second⟩,
  ⟨5744, "SubgroupAvcMceGetInterMotionVectorCountINTEL", .second⟩,
  ⟨5745, "SubgroupAvcMceGetInterReferenceIdsINTEL", .second⟩,
  ⟨5746, "SubgroupAvcMceGetInterReferenceInterlacedFieldPolaritiesINTEL", .second⟩,
  ⟨5747, "SubgroupAvcImeInitializeINTEL", .second⟩,
  ⟨5748, "SubgroupAvcImeSetSingleReferenceINTEL", .second⟩,
  ⟨5749, "SubgroupAvcImeSetDualReferenceINTEL", .second⟩,
  ⟨5750, "SubgroupAvcImeRefWindowSizeINTEL", .second⟩,
  ⟨5751, "SubgroupAvcImeAdjustRefOffsetINTEL", .second⟩,
  ⟨5752, "SubgroupAvcImeConvertToMcePayloadINTEL", .second⟩,
  ⟨5753, "SubgroupAvcImeSetMaxMotionVectorCountINTEL", .second⟩,
  ⟨5754, "SubgroupAvcImeSetUnidirectionalMixDisableINTEL", .second⟩,
  ⟨5755, "SubgroupAvcImeSetEarlySearchTerminationThresholdINTEL", .second⟩,
  ⟨5756, "SubgroupAvcImeSetWeightedSadINTEL", .second⟩,
  ⟨5757, "SubgroupAvcImeEvaluateWithSingleReferenceINTEL", .second⟩,
  ⟨5758, "SubgroupAvcImeEvaluateWithDualReferenceINTEL", .second⟩,
  ⟨5759, "SubgroupAvcImeEvaluateWithSingleReferenceStreaminINTEL", .second⟩,
  ⟨5760, "SubgroupAvcImeEvaluateWithDualReferenceStreaminINTEL", .second⟩,
  ⟨5761, "SubgroupAvcImeEvaluateWithSingleReferenceStreamoutINTEL", .second⟩,
  ⟨5762, "SubgroupAvcImeEvaluateWithDualReferenceStreamoutINTEL", .second⟩,
  ⟨5763, "SubgroupAvcImeEvaluateWithSingleReferenceStreaminoutINTEL", .second⟩,
  ⟨5764, "SubgroupAvcImeEvaluateWithDualReferenceStreaminoutINTEL", .second⟩,
  ⟨5765, "SubgroupAvcImeConvertToMceResultINTEL", .second⟩,
  ⟨5766, "SubgroupAvcImeGetSingleReferenceStreaminINTEL", .second⟩,
  ⟨5767, "SubgroupAvcImeGetDualReferenceStreaminINTEL", .second⟩,
  ⟨5768, "SubgroupAvcImeStripSingleReferenceStreamoutINTEL", .second⟩,
  ⟨5769, "SubgroupAvcImeStripDualReferenceStreamoutINTEL", .second⟩,
  ⟨5770, "SubgroupAvcImeGetStreamoutSingleReferenceMajorShapeMotionVectorsINTEL", .second⟩,
  ⟨5771, "SubgroupAvcImeGetStreamoutSingleReferenceMajorShapeDistortionsINTEL", .second⟩,
  ⟨5772, "SubgroupAvcImeGetStreamoutSingleReferenceMajorShapeReferenceIdsINTEL", .second⟩,
  ⟨5773, "SubgroupAvcImeGetStreamoutDualReferenceMajorShapeMotionVectorsINTEL", .second⟩,
  ⟨5774, "SubgroupAvcImeGetStreamoutDualReferenceMajorShapeDistortionsINTEL", .second⟩,
  ⟨5775, "SubgroupAvcImeGetStreamoutDualReferenceMajorShapeReferenceIdsINTEL", .second⟩,
  ⟨5776, "SubgroupAvcImeGetBorderReachedINTEL", .second⟩,
  ⟨5777, "SubgroupAvcImeGetTruncatedSearchIndicationINTEL", .second⟩,
  ⟨5778, "SubgroupAvcImeGetUnidirectionalEarlySearchTerminationINTEL", .second⟩,
  ⟨5779, "SubgroupAvcImeGetWeightingPatternMinimumMotionVectorINTEL", .second⟩,
  ⟨5780, "SubgroupAvcImeGetWeightingPatternMinimumDistortionINTEL", .second⟩,
  ⟨5781, "SubgroupAvcFmeInitializeINTEL", .second⟩,
  ⟨5782, "SubgroupAvcBmeInitializeINTEL", .second⟩,
  ⟨5783, "SubgroupAvcRefConvertToMcePayloadINTEL", .second⟩,
  ⟨5784, "SubgroupAvcRefSetBidirectionalMixDisableINTEL", .second⟩,
  ⟨5785, "SubgroupAvcRefSetBilinearFilterEnableINTEL", .second⟩,
  ⟨5786, "SubgroupAvcRefEvaluateWithSingleReferenceINTEL", .second⟩,
  ⟨5787, "SubgroupAvcRefEvaluateWithDualReferenceINTEL", .second⟩,
  ⟨5788, "SubgroupAvcRefEvaluateWithMultiReferenceINTEL", .second⟩,
  ⟨5789, "SubgroupAvcRefEvaluateWithMultiReferenceInterlacedINTEL", .second⟩,
  ⟨5790, "SubgroupAvcRefConvertToMceResultINTEL", .second⟩,
  ⟨5791, "SubgroupAvcSicInitializeINTEL", .second⟩,
  ⟨5792, "SubgroupAvcSicConfigureSkcINTEL", .second⟩,
  ⟨5793, "SubgroupAvcSicConfigureIpeLumaINTEL", .second⟩,
  ⟨5794, "SubgroupAvcSicConfigureIpeLumaChromaINTEL", .second⟩,
  ⟨5795, "SubgroupAvcSicGetMotionVectorMaskINTEL", .second⟩,
  ⟨5796, "SubgroupAvcSicConvertToMcePayloadINTEL", .second⟩,
  ⟨5797, "SubgroupAvcSicSetIntraLumaShapePenaltyINTEL", .second⟩,
  ⟨5798, "SubgroupAvcSicSetIntraLumaModeCostFunctionINTEL", .second⟩,
  ⟨5799, "SubgroupAvcSicSetIntraChromaModeCostFunctionINTEL", .second⟩,
  ⟨5800, "SubgroupAvcSicSetBilinearFilterEnableINTEL", .second⟩,
  ⟨5801, "SubgroupAvcSicSetSkcForwardTransformEnableINTEL", .second⟩,
  ⟨5802, "SubgroupAvcSicSetBlockBasedRawSkipSadINTEL", .second⟩,
  ⟨5803, "SubgroupAvcSicEvaluateIpeINTEL", .second⟩,
  ⟨5804, "SubgroupAvcSicEvaluateWithSingleReferenceINTEL", .second⟩,
  ⟨5805, "SubgroupAvcSicEvaluateWithDualReferenceINTEL", .second⟩,
  ⟨5806, "SubgroupAvcSicEvaluateWithMultiReferenceINTEL", .second⟩,
  ⟨5807, "SubgroupAvcSicEvaluateWithMultiReferenceInterlacedINTEL", .second⟩,
  ⟨5808, "SubgroupAvcSicConvertToMceResultINTEL", .second⟩,
  ⟨5809, "SubgroupAvcSicGetIpeLumaShapeINTEL", .second⟩,
  ⟨5810, "SubgroupAvcSicGetBestIpeLumaDistortionINTEL", .second⟩,
  ⟨5811, "SubgroupAvcSicGetBestIpeChromaDistortionINTEL", .second⟩,
  ⟨5812, "SubgroupAvcSicGetPackedIpeLumaModesINTEL", .second⟩,
  ⟨5813, "SubgroupAvcSicGetIpeChromaModeINTEL", .second⟩,
  ⟨5814, "SubgroupAvcSicGetPackedSkcLumaCountThresholdINTEL", .second⟩,
  ⟨5815, "SubgroupAvcSicGetPackedSkcLumaSumThresholdINTEL", .second⟩,
  ⟨5816, "SubgroupAvcSicGetInterRawSadsINTEL", .second⟩,
  ⟨5818, "VariableLengthArrayINTEL", .second⟩, ⟨5819, "SaveMemoryINTEL", .second⟩,
  ⟨5820, "RestoreMemoryINTEL", .none⟩, ⟨5840, "ArbitraryFloatSinCosPiINTEL", .second⟩,
  ⟨5841, "ArbitraryFloatCastINTEL", .second⟩, ⟨5842, "ArbitraryFloatCastFromIntINTEL", .second⟩,
  ⟨5843, "ArbitraryFloatCastToIntINTEL", .second⟩, ⟨5846, "ArbitraryFloatAddINTEL", .second⟩,
  ⟨5847, "ArbitraryFloatSubINTEL", .second⟩, ⟨5848, "ArbitraryFloatMulINTEL", .second⟩,
  ⟨5849, "ArbitraryFloatDivINTEL", .second⟩, ⟨5850, "ArbitraryFloatGTINTEL", .second⟩,
  ⟨5851, "ArbitraryFloatGEINTEL", .second⟩, ⟨5852, "ArbitraryFloatLTINTEL", .second⟩,
  ⟨5853, "ArbitraryFloatLEINTEL", .second⟩, ⟨5854, "ArbitraryFloatEQINTEL", .second⟩,
  ⟨5855, "ArbitraryFloatRecipINTEL", .second⟩, ⟨5856, "ArbitraryFloatRSqrtINTEL", .second⟩,
  ⟨5857, "ArbitraryFloatCbrtINTEL", .second⟩, ⟨5858, "ArbitraryFloatHypotINTEL", .second⟩,
  ⟨5859, "ArbitraryFloatSqrtINTEL", .second⟩, ⟨5860, "ArbitraryFloatLogINTEL", .second⟩,
  ⟨5861, "ArbitraryFloatLog2INTEL", .second⟩, ⟨5862, "ArbitraryFloatLog10INTEL", .second⟩,
  ⟨5863, "ArbitraryFloatLog1pINTEL", .second⟩, ⟨5864, "ArbitraryFloatExpINTEL", .second⟩,
  ⟨5865, "ArbitraryFloatExp2INTEL", .second⟩, ⟨5866, "ArbitraryFloatExp10INTEL", .second⟩,
  ⟨5867, "ArbitraryFloatExpm1INTEL", .second⟩, ⟨5868, "ArbitraryFloatSinINTEL", .second⟩,
  ⟨5869, "ArbitraryFloatCosINTEL", .second⟩, ⟨5870, "ArbitraryFloatSinCosINTEL", .second⟩,
  ⟨5871, "ArbitraryFloatSinPiINTEL", .second⟩, ⟨5872, "ArbitraryFloatCosPiINTEL", .second⟩,
  ⟨5873, "ArbitraryFloatASinINTEL", .second⟩, ⟨5874, "ArbitraryFloatASinPiINTEL", .second⟩,
  ⟨5875, "ArbitraryFloatACosINTEL", .second⟩, ⟨5876, "ArbitraryFloatACosPiINTEL", .second⟩,
  ⟨5877, "ArbitraryFloatATanINTEL", .second⟩, ⟨5878, "ArbitraryFloatATanPiINTEL", .second⟩,
  ⟨5879, "ArbitraryFloatATan2INTEL", .second⟩, ⟨5880, "ArbitraryFloatPowINTEL", .second⟩,
  ⟨5881, "ArbitraryFloatPowRINTEL", .second⟩, ⟨5882, "ArbitraryFloatPowNINTEL", .second⟩,
  ⟨5887, "LoopControlINTEL", .none⟩, ⟨5911, "AliasDomainDeclINTEL", .first⟩,
  ⟨5912, "AliasScopeDeclINTEL", .first⟩, ⟨5913, "AliasScopeListDeclINTEL", .first⟩,
  ⟨5923, "FixedSqrtINTEL", .second⟩, ⟨5924, "FixedRecipINTEL", .second⟩,
  ⟨5925, "FixedRsqrtINTEL", .second⟩, ⟨5926, "FixedSinINTEL", .second⟩,
  ⟨5927, "FixedCosINTEL", .second⟩, ⟨5928, "FixedSinCosINTEL", .second⟩,
  ⟨5929, "FixedSinPiINTEL", .second⟩, ⟨5930, "FixedCosPiINTEL", .second⟩,
  ⟨5931, "FixedSinCosPiINTEL", .second⟩, ⟨5932, "FixedLogINTEL", .second⟩,
  ⟨5933, "FixedExpINTEL", .second⟩, ⟨5934, "PtrCastToCrossWorkgroupINTEL", .second⟩,
  ⟨5938, "CrossWorkgroupCastToPtrINTEL", .second⟩, ⟨5946, "ReadPipeBlockingINTEL", .second⟩,
  ⟨5947, "WritePipeBlockingINTEL", .second⟩, ⟨5949, "FPGARegINTEL", .second⟩,
  ⟨6016, "RayQueryGetRayTMinKHR", .second⟩, ⟨6017, "RayQueryGetRayFlagsKHR", .second⟩,
  ⟨6018, "RayQueryGetIntersectionTKHR", .second⟩,
  ⟨6019, "RayQueryGetIntersectionInstanceCustomIndexKHR", .second⟩,
  ⟨6020, "RayQueryGetIntersectionInstanceIdKHR", .second⟩,
  ⟨6021, "RayQueryGetIntersectionInstanceShaderBindingTableRecordOffsetKHR", .second⟩,
  ⟨6022, "RayQueryGetIntersectionGeometryIndexKHR", .second⟩,
  ⟨6023, "RayQueryGetIntersectionPrimitiveIndexKHR", .second⟩,
  ⟨6024, "RayQueryGetIntersectionBarycentricsKHR", .second⟩,
  ⟨6025, "RayQueryGetIntersectionFrontFaceKHR", .second⟩,
  ⟨6026, "RayQueryGetIntersectionCandidateAABBOpaqueKHR", .second⟩,
  ⟨6027, "RayQueryGetIntersectionObjectRayDirectionKHR", .second⟩,
  ⟨6028, "RayQueryGetIntersectionObjectRayOriginKHR", .second⟩,
  ⟨6029, "RayQueryGetWorldRayDirectionKHR", .second⟩,
  ⟨6030, "RayQueryGetWorldRayOriginKHR", .second⟩,
  ⟨6031, "RayQueryGetIntersectionObjectToWorldKHR", .second⟩,
  ⟨6032, "RayQueryGetIntersectionWorldToObjectKHR", .second⟩, ⟨6035, "AtomicFAddEXT", .second⟩,
  ⟨6086, "TypeBufferSurfaceINTEL", .first⟩, ⟨6090, "TypeStructContinuedINTEL", .none⟩,
  ⟨6091, "ConstantCompositeContinuedINTEL", .none⟩,
  ⟨6092, "SpecConstantCompositeContinuedINTEL", .none⟩, ⟨6116, "ConvertFToBF16INTEL", .second⟩,
  ⟨6117, "ConvertBF16ToFINTEL", .second⟩, ⟨6142, "ControlBarrierArriveINTEL", .none⟩,
  ⟨6143, "ControlBarrierWaitINTEL", .none⟩, ⟨6401, "GroupIMulKHR", .second⟩,
  ⟨6402, "GroupFMulKHR", .second⟩, ⟨6403, "GroupBitwiseAndKHR", .second⟩,
  ⟨6404, "GroupBitwiseOrKHR", .second⟩, ⟨6405, "GroupBitwiseXorKHR", .second⟩,
  ⟨6406, "GroupLogicalAndKHR", .second⟩, ⟨6407, "GroupLogicalOrKHR", .second⟩,
  ⟨6408, "GroupLogicalXorKHR", .second⟩]

end SpirvModule.Grammar
